import ProbeWeaver.Proofs.Edit.Order
import ProbeWeaver.Proofs.Text.Slice

/-!
# Proofs/Edit/Rendering — a well-formed list of edits can be carried out

On a list that fits the text `applyAll` meets no fault and gives `editedBetween` over the whole
text (`applyAll_eq_ok`).  The edited text of a range grows by what the edits in it gain
(`size_editedBetween`), and a range cut in two gives two texts that join (`editedBetween_append`).
-/

namespace ProbeWeaver

open Text Edit

variable {source : String} {i j k : Nat} {e : Edit} {l m : List Edit}

/-- **The edited text of a range** is as long as the range and the growth together. -/
theorem size_editedBetween : ∀ {i : Nat} {l : List Edit}, IsBoundary source i →
    IsBoundary source j → (∀ e ∈ l, OnBoundaries source e) → Between i l j →
      ((editedBetween source i l j).utf8ByteSize : Int) = (j : Int) - i + totalGrowth l
  | i, [], hi, hj, _, hl => by
      have hij : i ≤ j := hl
      rw [editedBetween, size_slice hi hj hij, totalGrowth_nil]
      omega
  | i, e :: l, hi, hj, hb, hl => by
      obtain ⟨hstart, hstop⟩ := hb e List.mem_cons_self
      have ih := size_editedBetween hstop hj (fun d hd => hb d (List.mem_cons_of_mem e hd)) hl.2
      have hie := hl.1
      rw [editedBetween, String.utf8ByteSize_append, String.utf8ByteSize_append,
        size_slice hi hstart hie, totalGrowth_cons, growth, size]
      have hlen := e.stop_eq
      omega

/-- Text before the first edit of a range stands as it is. -/
theorem editedBetween_eq_append (hi : IsBoundary source i) (hk : IsBoundary source k)
    (hj : IsBoundary source j) (hb : ∀ e ∈ l, OnBoundaries source e) (hik : i ≤ k)
    (hl : Between k l j) :
    editedBetween source i l j = slice source i k ++ editedBetween source k l j := by
  cases l with
  | nil => rw [editedBetween, editedBetween, slice_append_slice hi hk hj hik hl]
  | cons e l =>
    rw [editedBetween, editedBetween, ← slice_append_slice hi hk (hb e List.mem_cons_self).1 hik
      hl.1, String.append_assoc, String.append_assoc, String.append_assoc]

/-- **A range cut in two.** -/
theorem editedBetween_append : ∀ {i : Nat} {l : List Edit}, IsBoundary source i →
    IsBoundary source k → IsBoundary source j → (∀ e ∈ l ++ m, OnBoundaries source e) →
    Between i l k → Between k m j →
      editedBetween source i (l ++ m) j =
        editedBetween source i l k ++ editedBetween source k m j
  | _, [], hi, hk, hj, hb, hl, hm => editedBetween_eq_append hi hk hj hb hl hm
  | _, e :: l, _, hk, hj, hb, hl, hm => by
      have ih := editedBetween_append (hb e List.mem_cons_self).2 hk hj
        (fun d hd => hb d (List.mem_cons_of_mem e hd)) hl.2 hm
      rw [List.cons_append, editedBetween, editedBetween, ih, String.append_assoc,
        String.append_assoc, String.append_assoc]

/-- An edit behind the cursor and between characters has no fault. -/
theorem fault?_eq_none (hbehind : i ≤ e.offset) (he : OnBoundaries source e) :
    e.fault? source i = none := by
  rw [fault?, if_neg (Nat.not_lt.mpr he.2.le_size), if_neg (Nat.not_lt.mpr hbehind)]
  exact if_pos he

/-- Carrying out edits that lie behind a cursor meets no fault. -/
theorem applyFrom_eq_ok : ∀ {i : Nat} {l : List Edit}, (∀ e ∈ l, OnBoundaries source e) →
    Between i l source.utf8ByteSize →
      applyFrom source i l = .ok (editedBetween source i l source.utf8ByteSize)
  | _, [], _, _ => rfl
  | i, e :: l, hb, hl => by
      have hfault := fault?_eq_none hl.1 (hb e List.mem_cons_self)
      have ih := applyFrom_eq_ok (fun d hd => hb d (List.mem_cons_of_mem e hd)) hl.2
      rw [applyFrom, hfault, ih]
      rfl

/-- **Carrying out a well-formed list succeeds.** -/
theorem applyAll_eq_ok (h : Fits source l) :
    applyAll source l = .ok (editedBetween source 0 l source.utf8ByteSize) :=
  applyFrom_eq_ok h.onBoundaries h.between

/-- The size of the text after a well-formed list. -/
theorem size_applyAll (h : Fits source l) :
    ((editedBetween source 0 l source.utf8ByteSize).utf8ByteSize : Int) =
      (source.utf8ByteSize : Int) + totalGrowth l := by
  rw [size_editedBetween (isBoundary_zero source) (isBoundary_size source) h.onBoundaries h.between]
  omega

end ProbeWeaver
