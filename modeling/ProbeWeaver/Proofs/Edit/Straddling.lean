import Mathlib.Algebra.GroupWithZero.Nat
import ProbeWeaver.Proofs.Edit.Staging

/-!
# Proofs/Edit/Straddling — a replacement across the edge of an entry

An offset goes into the edited text past the new texts in front of it and without the ranges in
front of it (`editedOffsetFrom_eq_sum`); inside a replaced range it moves on byte by byte and stops
at the last byte of the new text.  So a range changes size on the way exactly when it holds more or
less new text than replaced bytes (`shifted_eq`), and this, not the edge itself, is what the set goes
by: a replacement across an edge is a conflict when the two differ, and is merged when they agree.

* `Desk.plan_straddling` — what becomes of a replacement that straddles an entry.
* `Desk.plan_straddling_merged` — one of the size of the new text it runs into is merged, and
  overwrites it.
-/

namespace ProbeWeaver

open Edit

variable {source : String} {i j p q : Nat} {g : Int} {r x : Edit} {l : List Edit} {set : EditSet}

namespace Edit

/-- **`r` straddles `x`**: one end of `r` lies strictly inside the range of `x`, the other one
outside and not on its edge. -/
def Straddles (r x : Edit) : Prop :=
  (x.offset < r.offset ∧ r.offset < x.stop ∧ x.stop < r.stop) ∨
    (r.offset < x.offset ∧ x.offset < r.stop ∧ r.stop < x.stop)

/-- Bytes of the new text of `x` that stand in front of where offset `p` goes. -/
def textBefore (x : Edit) (p : Nat) : Nat :=
  if x.stop ≤ p then x.size else min (p - x.offset) (x.size - 1)

/-- Bytes of the range of `x` in front of offset `p`. -/
def rangeBefore (x : Edit) (p : Nat) : Nat := min (p - x.offset) x.length

/-- **Bytes of the new texts** between where the ends of `r` go. -/
def textWithin (l : List Edit) (r : Edit) : Nat :=
  (l.map fun x => x.textBefore r.stop - x.textBefore r.offset).sum

/-- **Replaced bytes** in the range of `r`. -/
def rangeWithin (l : List Edit) (r : Edit) : Nat :=
  (l.map fun x => x.rangeBefore r.stop - x.rangeBefore r.offset).sum

/-- What `x` adds to an offset on its way into the edited text. -/
def shiftAt (p : Nat) (x : Edit) : Int := x.textBefore p - x.rangeBefore p

theorem textBefore_mono (x : Edit) (h : p ≤ q) : x.textBefore p ≤ x.textBefore q := by
  rw [textBefore, textBefore]
  split <;> split <;> omega

theorem rangeBefore_mono (x : Edit) (h : p ≤ q) : x.rangeBefore p ≤ x.rangeBefore q := by
  rw [rangeBefore, rangeBefore]
  omega

/-- An entry that ends before an offset shifts it by its growth. -/
theorem shiftAt_of_stop_le (h : x.stop ≤ p) : shiftAt p x = x.growth := by
  rw [shiftAt, textBefore, if_pos h, rangeBefore, growth]
  rw [stop] at h
  omega

/-- An entry behind an offset leaves it where it is. -/
theorem shiftAt_of_lt_offset (h : p < x.offset) : shiftAt p x = 0 := by
  rw [shiftAt, textBefore, if_neg (by rw [stop]; omega), rangeBefore]
  omega

theorem sum_shiftAt_eq_zero : ∀ {l : List Edit}, (∀ x ∈ l, p < x.offset) →
    (l.map (shiftAt p)).sum = 0
  | [], _ => rfl
  | x :: l, h => by
      rw [List.map_cons, List.sum_cons, shiftAt_of_lt_offset (h x List.mem_cons_self),
        sum_shiftAt_eq_zero fun y hy => h y (List.mem_cons_of_mem x hy), Int.add_zero]

/-- What a list adds to the two ends of a range, by the new texts and the replaced bytes in it. -/
theorem sum_shiftAt_sub : ∀ (l : List Edit) (r : Edit),
    (l.map (shiftAt r.stop)).sum - (l.map (shiftAt r.offset)).sum =
      (textWithin l r : Int) - rangeWithin l r
  | [], _ => rfl
  | x :: l, r => by
      have ih := sum_shiftAt_sub l r
      have htext := textBefore_mono x r.offset_le_stop
      have hrange := rangeBefore_mono x r.offset_le_stop
      rw [textWithin, rangeWithin] at ih ⊢
      simp only [List.map_cons, List.sum_cons, shiftAt] at ih ⊢
      omega

theorem Straddles.length_pos (h : r.Straddles x) : 0 < r.length := by
  simp only [Straddles, stop] at h
  omega

theorem Straddles.overlaps (h : r.Straddles x) : x.overlaps r = true := by
  simp only [Straddles, stop] at h
  rw [overlaps_iff, stop, stop]
  split <;> omega

end Edit

/-! ## Where an offset goes -/

/-- **An offset goes past the new texts** in front of it, without the ranges in front of it. -/
theorem editedOffsetFrom_eq_sum : ∀ {g : Int} {i : Nat} {l : List Edit}, Between i l j →
    0 ≤ i + g → i ≤ p → (editedOffsetFrom g p l : Int) = p + g + (l.map (shiftAt p)).sum
  | g, i, [], _, hg, hp => by
      rw [editedOffsetFrom, List.map_nil, List.sum_nil]
      omega
  | g, i, x :: l, hl, hg, hp => by
      have hix := hl.1
      have hxs := x.stop_eq
      rw [editedOffsetFrom, List.map_cons, List.sum_cons]
      by_cases hstop : x.stop ≤ p
      · rw [if_pos hstop, editedOffsetFrom_eq_sum hl.2 (by rw [growth]; omega) hstop,
          shiftAt_of_stop_le hstop]
        omega
      · have hrest : (l.map (shiftAt p)).sum = 0 := sum_shiftAt_eq_zero fun y hy => by
          have := (hl.2.mem hy).1
          omega
        rw [if_neg hstop, hrest, shiftAt, textBefore, if_neg hstop, rangeBefore]
        split
        · split
          · next hempty =>
            rw [String.isEmpty_iff_utf8ByteSize_eq_zero, ← size] at hempty
            omega
          · next hempty =>
            have := size_pos_of_not_isEmpty hempty
            omega
        · omega

/-- **The size of a range in the edited text.** -/
theorem EditSet.shifted_eq (h : Between 0 set.entries j) (r : Edit) :
    set.editedOffset r.stop - set.editedOffset r.offset =
      r.length + textWithin set.entries r - rangeWithin set.entries r := by
  have hstart := editedOffsetFrom_eq_sum (g := 0) h (Int.le_refl 0) (Nat.zero_le r.offset)
  have hstop := editedOffsetFrom_eq_sum (g := 0) h (Int.le_refl 0) (Nat.zero_le r.stop)
  have hsum := sum_shiftAt_sub set.entries r
  have hrs := r.stop_eq
  rw [editedOffset, editedOffset]
  omega

/-- **What the plan of a replacement that meets an entry goes by.** -/
theorem EditSet.plan_eq_of_length_pos (h : Fits source set.entries) (hr : OnBoundaries source r)
    (hlength : 0 < r.length) (hmeets : set.meets r = true) :
    set.plan source r =
      if textWithin set.entries r = rangeWithin set.entries r then
        set.foldInto source (set.editedOffset r.offset) r
      else .error (.irreconcilable r.offset r.length
        (r.length + textWithin set.entries r - rangeWithin set.entries r)) := by
  have hkeeps : r.length + textWithin set.entries r - rangeWithin set.entries r = r.length ↔
      textWithin set.entries r = rangeWithin set.entries r := by
    omega
  rw [plan_of_meets hr hmeets, shifted_eq h.between r]
  exact if_congr hkeeps rfl rfl

/-- An edit whose ends are not on boundaries of the text is refused. -/
theorem EditSet.exists_plan_eq_error (set : EditSet) (h : ¬ OnBoundaries source r) :
    ∃ conflict, set.plan source r = .error conflict := by
  cases hplan : set.plan source r with
  | error conflict => exact ⟨conflict, rfl⟩
  | ok step =>
    obtain ⟨⟨⟩, hrange, -⟩ := bind_eq_ok_iff.mp hplan
    exact absurd (checkRange_eq_ok_iff.mp hrange).2 h

namespace Desk

variable {desk : Desk} {action : Action} {actions : List Action} {conflict : Conflict}

/-- Planning and adding an edit are refused with the same conflict. -/
theorem conflict?_of_plan_eq_error (h : desk.set.plan source r = .error conflict)
    (haction : action = .plan r ∨ action = .add r) :
    desk.conflict? source action = some conflict := by
  rcases haction with rfl | rfl
  · rw [conflict?, h]
    rfl
  · rw [conflict?, EditSet.add, h]
    rfl

/-- A run that ends with a refused action is the run without it. -/
theorem run_append_of_conflict
    (h : (run source actions).conflict? source action = some conflict) :
    run source (actions ++ [action]) = run source actions := by
  rw [run, List.foldl_append]
  exact next_of_conflict h

/-- **A replacement that straddles an entry.**  Whatever was added, planned and committed before, a
replacement with one end strictly inside the range of an accepted entry and the other one outside is
refused, by `plan` and by `add`, and leaves everything as it was, when the new texts between its
ends and the replaced bytes there differ in size; the conflict says so unless an end is no boundary
of the text.  When the two agree the replacement is folded into the entries that it touches. -/
theorem plan_straddling (source : String) (actions : List Action) {r x : Edit}
    (hx : x ∈ (run source actions).set.entries) (hstraddles : r.Straddles x) :
    (textWithin (run source actions).set.entries r ≠
        rangeWithin (run source actions).set.entries r →
      ∀ action, action = .plan r ∨ action = .add r →
        ∃ conflict, (run source actions).conflict? source action = some conflict ∧
          run source (actions ++ [action]) = run source actions ∧
          (OnBoundaries source r → conflict = .irreconcilable r.offset r.length
            (r.length + textWithin (run source actions).set.entries r -
              rangeWithin (run source actions).set.entries r))) ∧
    (textWithin (run source actions).set.entries r =
        rangeWithin (run source actions).set.entries r →
      OnBoundaries source r → (run source actions).set.plan source r =
        (run source actions).set.foldInto source
          ((run source actions).set.editedOffset r.offset) r) := by
  have hfits := (sound_run source actions).fits
  have hmeets := (meets_iff hfits.apart).mpr ⟨x, hx, hstraddles.overlaps⟩
  refine ⟨fun hdiffer action haction => ?_, fun hagree hr => ?_⟩
  · by_cases hr : OnBoundaries source r
    · have hplan := EditSet.plan_eq_of_length_pos hfits hr hstraddles.length_pos hmeets
      rw [if_neg hdiffer] at hplan
      have hconflict := conflict?_of_plan_eq_error hplan haction
      exact ⟨_, hconflict, run_append_of_conflict hconflict, fun _ => rfl⟩
    · obtain ⟨conflict, hplan⟩ := (run source actions).set.exists_plan_eq_error hr
      have hconflict := conflict?_of_plan_eq_error hplan haction
      exact ⟨conflict, hconflict, run_append_of_conflict hconflict, fun h => absurd h hr⟩
  · rw [EditSet.plan_eq_of_length_pos hfits hr hstraddles.length_pos hmeets, if_pos hagree]

/-- A replacement of four bytes that runs over most of an entry with a new text of one byte. -/
theorem plan_straddling_refused :
    (⟨1, 3, "x"⟩ : Edit) ∈ (run "abcdef" [.add ⟨1, 3, "x"⟩]).set.entries ∧
      Straddles ⟨2, 4, "Q"⟩ ⟨1, 3, "x"⟩ ∧
      conflict? "abcdef" (run "abcdef" [.add ⟨1, 3, "x"⟩]) (.plan ⟨2, 4, "Q"⟩) =
        some (.irreconcilable 2 4 3) := by
  have hx : (⟨1, 3, "x"⟩ : Edit) ∈ (run "abcdef" [.add ⟨1, 3, "x"⟩]).set.entries := by
    decide +kernel
  have hstraddles : Straddles ⟨2, 4, "Q"⟩ ⟨1, 3, "x"⟩ := .inl ⟨by decide, by decide, by decide⟩
  obtain ⟨conflict, hrefused, -, hconflict⟩ :=
    (plan_straddling "abcdef" [.add ⟨1, 3, "x"⟩] hx hstraddles).1 (by decide +kernel)
      (.plan ⟨2, 4, "Q"⟩) (.inl rfl)
  rw [hconflict ⟨by decide +kernel, by decide +kernel⟩] at hrefused
  exact ⟨hx, hstraddles, hrefused.trans (by decide +kernel)⟩

/-- **A replacement across the edge of an entry that is as long as its range** is merged, and writes
over half of its text. -/
theorem plan_straddling_merged :
    ∃ step, (⟨2, 4, "WXYZ"⟩ : Edit) ∈ (run "0123456789" [.add ⟨2, 4, "WXYZ"⟩]).set.entries ∧
      Straddles ⟨4, 4, "zz"⟩ ⟨2, 4, "WXYZ"⟩ ∧
      (run "0123456789" [.add ⟨2, 4, "WXYZ"⟩]).set.plan "0123456789" ⟨4, 4, "zz"⟩ = .ok step ∧
      (run "0123456789" [.add ⟨2, 4, "WXYZ"⟩, .plan ⟨4, 4, "zz"⟩, .commit 0]).set.apply
        "0123456789" = .ok "01WXzz89" := by
  refine ⟨.merged 0 1 ⟨2, 6, "WXzz"⟩ 1, ?_, ?_, ?_, ?_⟩
  · decide +kernel
  · exact .inl ⟨by decide, by decide, by decide⟩
  · decide +kernel
  · decide +kernel

end Desk

end ProbeWeaver
