/-!
# Text/Cut — a text cut at byte offsets

Edits and syntax nodes address a text by byte offsets into its UTF-8 form.  `IsBoundary s i` says
that a character may start at byte `i` (the end of the text counts), and `cut? s i j` is the piece
between two boundaries.

* `isBoundary_iff` — `i` is a boundary exactly when some prefix of the text has `i` bytes.
* `cut?_eq_some_iff` — the piece is what stands between a prefix of `i` bytes and the rest after
  `j` bytes.
-/

namespace ProbeWeaver.Text

/-- **A character boundary** of `s`, its end included. -/
def IsBoundary (s : String) (i : Nat) : Prop := (String.Pos.Raw.mk i).IsValid s

instance (s : String) (i : Nat) : Decidable (IsBoundary s i) :=
  inferInstanceAs (Decidable ((String.Pos.Raw.mk i).IsValid s))

theorem isBoundary_iff {s : String} {i : Nat} :
    IsBoundary s i ↔ ∃ p q : String, s = p ++ q ∧ p.utf8ByteSize = i := by
  rw [IsBoundary, String.Pos.Raw.isValid_iff_exists_append]
  refine exists_congr fun p => exists_congr fun q => and_congr_right fun _ => ?_
  exact ⟨fun h => (congrArg String.Pos.Raw.byteIdx h).symm, fun h => String.Pos.Raw.ext h.symm⟩

theorem IsBoundary.le_size {s : String} {i : Nat} (h : IsBoundary s i) : i ≤ s.utf8ByteSize := by
  obtain ⟨p, q, rfl, rfl⟩ := isBoundary_iff.mp h
  simp [String.utf8ByteSize_append]

theorem isBoundary_zero (s : String) : IsBoundary s 0 := isBoundary_iff.mpr ⟨"", s, by simp, rfl⟩

theorem isBoundary_size (s : String) : IsBoundary s s.utf8ByteSize :=
  isBoundary_iff.mpr ⟨s, "", by simp, rfl⟩

/-- The text between two boundaries; nothing when either splits a character. -/
def cut? (s : String) (i j : Nat) : Option String :=
  if h : IsBoundary s i ∧ IsBoundary s j ∧ i ≤ j then
    some (s.extract (s.pos ⟨i⟩ h.1) (s.pos ⟨j⟩ h.2.1))
  else none

/-- The text between two offsets, empty when there is none. -/
def slice (s : String) (i j : Nat) : String := (cut? s i j).getD ""

/-- The text from an offset on. -/
def sliceFrom (s : String) (i : Nat) : String := slice s i s.utf8ByteSize

theorem isSome_cut? {s : String} {i j : Nat} :
    (cut? s i j).isSome ↔ IsBoundary s i ∧ IsBoundary s j ∧ i ≤ j := by
  unfold cut?
  split <;> simp_all

/-- Of two ways to split a text, the shorter front begins the longer one. -/
theorem exists_append_of_size_le {p q u v : String} (h : p ++ q = u ++ v)
    (hle : p.utf8ByteSize ≤ u.utf8ByteSize) : ∃ w, u = p ++ w := by
  have hl := congrArg String.toList h
  rw [String.toList_append, String.toList_append, List.append_eq_append_iff] at hl
  rcases hl with ⟨as, hu, -⟩ | ⟨bs, hp, -⟩
  · exact ⟨String.ofList as, by rw [← String.toList_inj]; simpa using hu⟩
  · have hp' : p = u ++ String.ofList bs := by rw [← String.toList_inj]; simpa using hp
    refine ⟨"", ?_⟩
    have : (String.ofList bs).utf8ByteSize = 0 := by
      rw [hp', String.utf8ByteSize_append] at hle; omega
    rw [hp', String.utf8ByteSize_eq_zero_iff.mp this]
    simp

/-- **A cut is what stands between.**  The piece follows a prefix of `i` bytes and ends `j` bytes
into the text. -/
theorem cut?_append (p t q : String) :
    cut? (p ++ t ++ q) p.utf8ByteSize (p ++ t).utf8ByteSize = some t := by
  have hi : IsBoundary (p ++ t ++ q) p.utf8ByteSize :=
    isBoundary_iff.mpr ⟨p, t ++ q, by rw [String.append_assoc], rfl⟩
  have hj : IsBoundary (p ++ t ++ q) (p ++ t).utf8ByteSize :=
    isBoundary_iff.mpr ⟨p ++ t, q, rfl, rfl⟩
  have hle : p.utf8ByteSize ≤ (p ++ t).utf8ByteSize := by simp [String.utf8ByteSize_append]
  rw [cut?, dif_pos ⟨hi, hj, hle⟩, Option.some_inj, ← String.toByteArray_inj,
    String.toByteArray_extract, String.toByteArray_append, String.toByteArray_append]
  show (p.toByteArray ++ t.toByteArray ++ q.toByteArray).extract p.toByteArray.size
      (p ++ t).utf8ByteSize = _
  rw [String.utf8ByteSize_append, ByteArray.append_assoc]
  show (p.toByteArray ++ (t.toByteArray ++ q.toByteArray)).extract (p.toByteArray.size + 0)
      (p.toByteArray.size + t.toByteArray.size) = _
  rw [ByteArray.extract_append_size_add, ByteArray.extract_append_eq_left rfl]

theorem cut?_eq_some_iff {s t : String} {i j : Nat} :
    cut? s i j = some t ↔
      ∃ p q : String, s = p ++ t ++ q ∧ p.utf8ByteSize = i ∧ (p ++ t).utf8ByteSize = j := by
  refine ⟨fun h => ?_, fun ⟨p, q, hs, hi, hj⟩ => by subst hs hi hj; exact cut?_append p t q⟩
  obtain ⟨hi, hj, hle⟩ := isSome_cut?.mp (h ▸ rfl : (cut? s i j).isSome)
  obtain ⟨p, r, rfl, rfl⟩ := isBoundary_iff.mp hi
  obtain ⟨u, q, hu, hj'⟩ := isBoundary_iff.mp hj
  obtain ⟨w, rfl⟩ : ∃ w, u = p ++ w := by
    refine exists_append_of_size_le hu ?_
    omega
  have hcut := cut?_append p w q
  rw [← hu, hj', h] at hcut
  exact ⟨p, q, by rw [Option.some.inj hcut]; exact hu, rfl, by rw [Option.some.inj hcut]; exact hj'⟩

end ProbeWeaver.Text
