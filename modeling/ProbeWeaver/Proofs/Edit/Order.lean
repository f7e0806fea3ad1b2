import Mathlib.Algebra.Ring.Int.Defs
import ProbeWeaver.Edit.Set

/-!
# Proofs/Edit/Order — edits in order and apart

Two edits are `Apart` when the first comes first and ends before the second starts; this relation
is transitive and rules out an overlap.  `Between i edits j` says the same of a whole list inside
the range `[i, j]`, one edit after the other, which is what walks over the list need.

* `Fits` — the well-formed lists over a text: apart, and on character boundaries.
* `Between.le_add_growth` — a list never takes away more than the range it lies in.
-/

namespace ProbeWeaver

namespace Edit

variable {a b c d e t : Edit} {i j k : Nat} {l l₀ l₁ m : List Edit} {source : String}

theorem isInsertion_iff : e.isInsertion = true ↔ e.length = 0 := by
  rw [isInsertion, beq_iff_eq]

theorem stop_eq (e : Edit) : e.stop = e.offset + e.length := rfl

theorem offset_le_stop (e : Edit) : e.offset ≤ e.stop := Nat.le_add_right _ _

theorem precedes_iff :
    a.precedes b = true ↔
      a.offset < b.offset ∨ a.offset = b.offset ∧ a.length = 0 ∧ b.length ≠ 0 := by
  simp [precedes, isInsertion, and_assoc]

/-- **What it is to overlap**, insertions told from replacements by their length. -/
theorem overlaps_iff :
    a.overlaps b = true ↔
      if a.length = 0 ∧ b.length = 0 then a.offset = b.offset
      else a.offset < b.stop ∧ b.offset < a.stop := by
  have hins : ∀ d : Edit, d.isInsertion = decide (d.length = 0) := fun d => by
    rw [Bool.eq_iff_iff, isInsertion_iff, decide_eq_true_iff]
  rw [overlaps, hins, hins]
  by_cases ha : a.length = 0 <;> by_cases hb : b.length = 0 <;> simp [ha, hb] <;>
    simp only [stop] <;> omega

theorem overlaps_comm (a b : Edit) : a.overlaps b = b.overlaps a := by
  rw [Bool.eq_iff_iff, overlaps_iff, overlaps_iff]
  split <;> split <;> omega

/-! ## Apart -/

/-- **`a` comes before `b` and ends before it.** -/
def Apart (a b : Edit) : Prop := a.precedes b = true ∧ a.stop ≤ b.offset

theorem apart_iff :
    Apart a b ↔
      a.stop ≤ b.offset ∧ (a.offset < b.offset ∨ a.length = 0 ∧ b.length ≠ 0) := by
  rw [Apart, precedes_iff, stop]
  omega

theorem Apart.trans (hab : Apart a b) (hbc : Apart b c) : Apart a c := by
  rw [apart_iff, stop] at *
  omega

theorem Apart.overlaps_eq_false (h : Apart a b) : a.overlaps b = false := by
  rw [apart_iff, stop] at h
  rw [Bool.eq_false_iff, ne_eq, overlaps_iff, stop, stop]
  split <;> omega

/-- Two edits in order that do not overlap are apart. -/
theorem apart_of_precedes (h : a.precedes b = true) (hover : a.overlaps b = false) :
    Apart a b := by
  refine ⟨h, ?_⟩
  rw [precedes_iff] at h
  rw [Bool.eq_false_iff, ne_eq, overlaps_iff] at hover
  simp only [stop] at *
  split at hover <;> omega

/-- Of two edits that do not overlap one comes first. -/
theorem apart_of_not_precedes (h : a.precedes b = false) (hover : a.overlaps b = false) :
    Apart b a := by
  rw [Bool.eq_false_iff, ne_eq, precedes_iff] at h
  rw [Bool.eq_false_iff, ne_eq, overlaps_iff] at hover
  rw [apart_iff]
  simp only [stop] at *
  split at hover <;> omega

/-! ## Growth -/

/-- Bytes gained by all edits of a list together. -/
def totalGrowth (edits : List Edit) : Int := (edits.map growth).sum

@[simp] theorem totalGrowth_nil : totalGrowth [] = 0 := rfl

@[simp] theorem totalGrowth_cons (e : Edit) (l : List Edit) :
    totalGrowth (e :: l) = e.growth + totalGrowth l := by
  rw [totalGrowth, List.map_cons, List.sum_cons, totalGrowth]

@[simp] theorem totalGrowth_append (l m : List Edit) :
    totalGrowth (l ++ m) = totalGrowth l + totalGrowth m := by
  simp [totalGrowth]

theorem totalGrowth_concat (l : List Edit) (t : Edit) :
    totalGrowth (l ++ [t]) = totalGrowth l + t.growth := by
  rw [totalGrowth_append, totalGrowth_cons, totalGrowth_nil, Int.add_zero]

/-! ## Between -/

/-- **The edits lie in `[i, j]`**, each behind the one before it. -/
def Between : Nat → List Edit → Nat → Prop
  | i, [], j => i ≤ j
  | i, e :: l, j => i ≤ e.offset ∧ Between e.stop l j

theorem Between.le : ∀ {i : Nat} {l : List Edit}, Between i l j → i ≤ j
  | _, [], h => h
  | _, e :: _, h => Nat.le_trans h.1 (Nat.le_trans e.offset_le_stop (Between.le h.2))

theorem Between.append : ∀ {i : Nat} {l : List Edit},
    Between i l k → Between k m j → Between i (l ++ m) j
  | _, [], hl, hm => by
      cases m with
      | nil => exact Nat.le_trans hl hm
      | cons e m => exact ⟨Nat.le_trans hl hm.1, hm.2⟩
  | _, _ :: _, hl, hm => ⟨hl.1, Between.append hl.2 hm⟩

theorem Between.exists_mid : ∀ {i : Nat} {l : List Edit},
    Between i (l ++ m) j → ∃ k, Between i l k ∧ Between k m j
  | i, [], h => ⟨i, Nat.le_refl i, h⟩
  | _, _ :: _, h => by
      obtain ⟨k, hl, hm⟩ := Between.exists_mid h.2
      exact ⟨k, ⟨h.1, hl⟩, hm⟩

theorem Between.left_of_append_cons : ∀ {i : Nat} {l : List Edit},
    Between i (l ++ e :: m) j → Between i l e.offset
  | _, [], h => h.1
  | _, _ :: _, h => ⟨h.1, Between.left_of_append_cons h.2⟩

theorem Between.right_of_append_cons : ∀ {i : Nat} {l : List Edit},
    Between i (l ++ e :: m) j → Between e.stop m j
  | _, [], h => h.2
  | _, _ :: _, h => Between.right_of_append_cons h.2

/-- A list lies in any wider range. -/
theorem Between.mono : ∀ {i i' : Nat} {l : List Edit}, Between i l j → i' ≤ i → j ≤ k →
    Between i' l k
  | _, _, [], h, hi, hj => Nat.le_trans hi (Nat.le_trans h hj)
  | _, _, _ :: _, h, hi, hj => ⟨Nat.le_trans hi h.1, Between.mono h.2 (Nat.le_refl _) hj⟩

/-- A list lies between the start of its first edit and the end of its last one. -/
theorem Between.of_edges (h : Between i l j) (hhead : l = d :: l₁) (hlast : l = l₀ ++ [t]) :
    Between d.offset l t.stop := by
  have hfirst : Between d.offset l j := by
    rw [hhead] at h ⊢
    exact ⟨Nat.le_refl _, h.2⟩
  rw [hlast] at hfirst ⊢
  exact hfirst.left_of_append_cons.append ⟨Nat.le_refl _, Nat.le_refl _⟩

/-- A list lies in front of wherever its edits end. -/
theorem Between.of_stop_le : ∀ {i : Nat} {l : List Edit}, Between i l j →
    (∀ e ∈ l, e.stop ≤ k) → i ≤ k → Between i l k
  | _, [], _, _, hik => hik
  | _, e :: _, hl, hk, _ =>
      ⟨hl.1, Between.of_stop_le hl.2 (fun d hd => hk d (List.mem_cons_of_mem e hd))
        (hk e List.mem_cons_self)⟩

theorem Between.mem : ∀ {i : Nat} {l : List Edit},
    Between i l j → e ∈ l → i ≤ e.offset ∧ e.stop ≤ j
  | i, d :: l, h, he => by
      rcases List.mem_cons.mp he with rfl | he
      · exact ⟨h.1, h.2.le⟩
      · have := Between.mem h.2 he
        exact ⟨Nat.le_trans h.1 (Nat.le_trans d.offset_le_stop this.1), this.2⟩

/-- **A list takes away at most the range it lies in.** -/
theorem Between.le_add_growth : ∀ {i : Nat} {l : List Edit},
    Between i l j → (i : Int) ≤ j + totalGrowth l
  | _, [], h => by rw [totalGrowth_nil]; exact_mod_cast h.le
  | i, e :: l, h => by
      have := Between.le_add_growth h.2
      have hi := h.1
      rw [totalGrowth_cons, growth]
      simp only [stop] at this
      omega

/-- A list of edits apart from each other lies between any two offsets around it. -/
theorem between_of_apart : ∀ {i : Nat} {l : List Edit}, l.Pairwise Apart →
    (∀ e ∈ l, i ≤ e.offset ∧ e.stop ≤ j) → i ≤ j → Between i l j
  | _, [], _, _, hij => hij
  | _, e :: l, hl, hmem, _ => by
      obtain ⟨he, hl⟩ := List.pairwise_cons.mp hl
      refine ⟨(hmem e List.mem_cons_self).1, between_of_apart hl (fun d hd => ?_)
        (hmem e List.mem_cons_self).2⟩
      exact ⟨(he d hd).2, (hmem d (List.mem_cons_of_mem e hd)).2⟩

/-! ## Lists that fit a text -/

/-- The edit starts and ends between characters of the text. -/
def OnBoundaries (source : String) (e : Edit) : Prop :=
  Text.IsBoundary source e.offset ∧ Text.IsBoundary source e.stop

instance (source : String) (e : Edit) : Decidable (OnBoundaries source e) :=
  inferInstanceAs (Decidable (_ ∧ _))

/-- **A well-formed list of edits of a text.** -/
structure Fits (source : String) (edits : List Edit) : Prop where
  apart : edits.Pairwise Apart
  onBoundaries : ∀ e ∈ edits, OnBoundaries source e

theorem fits_nil (source : String) : Fits source [] :=
  ⟨List.Pairwise.nil, fun _ h => absurd h List.not_mem_nil⟩

theorem Fits.sublist (h : Fits source m) (hl : l.Sublist m) : Fits source l :=
  ⟨h.apart.sublist hl, fun e he => h.onBoundaries e (hl.subset he)⟩

theorem Fits.between (h : Fits source l) : Between 0 l source.utf8ByteSize :=
  between_of_apart h.apart
    (fun e he => ⟨Nat.zero_le _, (h.onBoundaries e he).2.le_size⟩) (Nat.zero_le _)

end Edit

end ProbeWeaver
