import ProbeWeaver.Text.Cut

/-!
# Proofs/Text/Slice — slices of a text between boundaries

Slices that follow one another join (`slice_append_slice`), have the size of their range
(`size_slice`), and give the whole text back (`slice_zero_size`).
-/

namespace ProbeWeaver.Text

variable {s : String} {i j k : Nat}

/-- A slice out of an appended text is its middle. -/
theorem slice_append (p t q : String) :
    slice (p ++ t ++ q) p.utf8ByteSize (p ++ t).utf8ByteSize = t := by
  rw [slice, cut?_append]
  rfl

/-- Two ways to split a text at one offset have the same front. -/
theorem append_left_of_size_eq {p q u v : String} (h : p ++ q = u ++ v)
    (hsize : p.utf8ByteSize = u.utf8ByteSize) : p = u := by
  obtain ⟨w, rfl⟩ := exists_append_of_size_le h (Nat.le_of_eq hsize)
  have hw : w.utf8ByteSize = 0 := by
    rw [String.utf8ByteSize_append] at hsize
    omega
  rw [String.utf8ByteSize_eq_zero_iff.mp hw, String.append_empty]

/-- Between two boundaries in order stands a piece with its surroundings. -/
theorem exists_slice (hi : IsBoundary s i) (hj : IsBoundary s j) (hij : i ≤ j) :
    ∃ p q, s = p ++ slice s i j ++ q ∧ p.utf8ByteSize = i ∧
      (p ++ slice s i j).utf8ByteSize = j := by
  obtain ⟨t, ht⟩ := Option.isSome_iff_exists.mp (isSome_cut?.mpr ⟨hi, hj, hij⟩)
  obtain ⟨p, q, hs, hp, hpt⟩ := cut?_eq_some_iff.mp ht
  have hslice : slice s i j = t := by rw [slice, ht]; rfl
  exact ⟨p, q, by rw [hslice]; exact hs, hp, by rw [hslice]; exact hpt⟩

/-- **A slice is as long as its range.** -/
theorem size_slice (hi : IsBoundary s i) (hj : IsBoundary s j) (hij : i ≤ j) :
    (slice s i j).utf8ByteSize = j - i := by
  obtain ⟨p, q, -, hp, hpt⟩ := exists_slice hi hj hij
  rw [String.utf8ByteSize_append] at hpt
  omega

/-- The slice of an empty range. -/
@[simp] theorem slice_self (s : String) (i : Nat) : slice s i i = "" := by
  by_cases hi : IsBoundary s i
  · rw [← String.utf8ByteSize_eq_zero_iff, size_slice hi hi (Nat.le_refl i), Nat.sub_self]
  · rw [slice, cut?, dif_neg fun h => hi h.1]
    rfl

/-- The slice of the whole range. -/
@[simp] theorem slice_zero_size (s : String) : slice s 0 s.utf8ByteSize = s := by
  have h := slice_append "" s ""
  simpa using h

/-- A text that is put together has a boundary at the seam. -/
theorem isBoundary_append (p q : String) : IsBoundary (p ++ q) p.utf8ByteSize :=
  isBoundary_iff.mpr ⟨p, q, rfl, rfl⟩

theorem slice_append_left (p q : String) : slice (p ++ q) 0 p.utf8ByteSize = p := by
  have h := slice_append "" p q
  rwa [String.empty_append] at h

theorem sliceFrom_append (p q : String) : sliceFrom (p ++ q) p.utf8ByteSize = q := by
  have h := slice_append p q ""
  rwa [String.append_empty] at h

/-- **Slices that follow one another join.** -/
theorem slice_append_slice (hi : IsBoundary s i) (hj : IsBoundary s j) (hk : IsBoundary s k)
    (hij : i ≤ j) (hjk : j ≤ k) : slice s i j ++ slice s j k = slice s i k := by
  obtain ⟨p, q, hs, hp, hpt⟩ := exists_slice hi hj hij
  obtain ⟨p', q', hs', hp', hpt'⟩ := exists_slice hj hk hjk
  have hfront : p' = p ++ slice s i j := by
    have happ : p' ++ (slice s j k ++ q') = (p ++ slice s i j) ++ q := by
      rw [← String.append_assoc, ← hs', ← hs]
    exact append_left_of_size_eq happ (by omega)
  have h := slice_append p (slice s i j ++ slice s j k) q'
  rw [← String.append_assoc, ← hfront, ← hs', hp, hpt'] at h
  exact h.symm

end ProbeWeaver.Text
