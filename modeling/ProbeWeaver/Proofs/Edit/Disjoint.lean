import ProbeWeaver.Proofs.Edit.Arrivals

/-!
# Proofs/Edit/Disjoint — edits that do not overlap may arrive in any order

Of edits no two of which overlap, each becomes an entry of its own, whatever arrived before it
(`EditSet.exists_takesDirectly`).  The order of edits is total on them, so the set has them sorted
(`eq_sortByPlace`), and neither its entries nor its text tell in which order they came.

* `EditSet.exists_text_of_disjoint` — every order of arrival gives the same entries and one text.
-/

namespace ProbeWeaver

open Text Edit

variable {source : String} {e : Edit} {edits order l : List Edit} {set set' : EditSet}

/-! ## Edits by place -/

/-- **Edits by offset**, an insertion before a replacement at its offset. -/
def sortByPlace (edits : List Edit) : List Edit := edits.mergeSort fun a b => !b.precedes a

theorem perm_sortByPlace (edits : List Edit) : (sortByPlace edits).Perm edits :=
  List.mergeSort_perm ..

theorem pairwise_not_precedes_sortByPlace (edits : List Edit) :
    (sortByPlace edits).Pairwise fun a b => b.precedes a = false := by
  have htrans (a b c : Edit) (hab : (!b.precedes a) = true) (hbc : (!c.precedes b) = true) :
      (!c.precedes a) = true := by
    rw [Bool.not_eq_true', Bool.eq_false_iff, ne_eq, precedes_iff] at *
    omega
  have htotal (a b : Edit) : ((!b.precedes a) || !a.precedes b) = true := by
    rw [Bool.or_eq_true_iff, Bool.not_eq_true', Bool.not_eq_true', Bool.eq_false_iff,
      Bool.eq_false_iff, ne_eq, ne_eq, precedes_iff, precedes_iff]
    omega
  exact (List.pairwise_mergeSort htrans htotal edits).imp (Bool.not_eq_true' _).mp

/-- Not overlapping does not depend on the order. -/
theorem pairwise_not_overlaps_perm (h : edits.Pairwise fun a b => a.overlaps b = false)
    (hperm : order.Perm edits) : order.Pairwise fun a b => a.overlaps b = false :=
  (hperm.pairwise_iff fun {a b} hab => (overlaps_comm b a).trans hab).mpr h

/-- **Sorted edits that do not overlap** are apart. -/
theorem apart_sortByPlace (h : edits.Pairwise fun a b => a.overlaps b = false) :
    (sortByPlace edits).Pairwise Apart :=
  ((pairwise_not_precedes_sortByPlace edits).and
    (pairwise_not_overlaps_perm h (perm_sortByPlace edits))).imp fun {a b} ⟨hprecedes, hover⟩ =>
      apart_of_not_precedes hprecedes ((overlaps_comm b a).trans hover)

/-- **There is one way to list edits apart**: sorted. -/
theorem eq_sortByPlace (h : l.Pairwise Apart) (hperm : l.Perm edits) : l = sortByPlace edits := by
  have hover : edits.Pairwise fun a b => a.overlaps b = false :=
    pairwise_not_overlaps_perm (h.imp Apart.overlaps_eq_false) hperm.symm
  refine List.Perm.eq_of_pairwise (fun a b _ _ hab hba => ?_) h (apart_sortByPlace hover)
    (hperm.trans (perm_sortByPlace edits).symm)
  -- neither of two edits can be apart in front of the other
  rw [apart_iff, stop_eq] at hab hba
  omega

/-! ## Entries of their own -/

/-- **The set takes each edit directly**: it plans an entry of its own, and carries the plan out. -/
inductive EditSet.TakesDirectly (source : String) : EditSet → List Edit → EditSet → Prop where
  | nil {set : EditSet} : TakesDirectly source set [] set
  | cons {set set' set'' : EditSet} {e : Edit} {edits : List Edit} {index : Nat}
      (planned : set.plan source e = .ok (.direct index e set.revision))
      (carried : set.carryOut (.direct index e set.revision) = .ok set')
      (rest : TakesDirectly source set' edits set'') : TakesDirectly source set (e :: edits) set''

/-- Taking edits directly is a way to add them. -/
theorem EditSet.TakesDirectly.addAll_eq (h : TakesDirectly source set edits set') :
    ParsedFile.addAll source set edits = .ok set' := by
  induction h with
  | nil => rfl
  | cons planned carried _ ih =>
    exact bind_eq_ok_iff.mpr ⟨_, bind_eq_ok_iff.mpr ⟨_, planned, carried⟩, ih⟩

/-- **Edits that overlap neither each other nor an entry** are taken directly. -/
theorem EditSet.exists_takesDirectly : ∀ {edits : List Edit} {set : EditSet},
    Fits source set.entries → (∀ e ∈ edits, OnBoundaries source e) →
      edits.Pairwise (fun a b => a.overlaps b = false) →
        (∀ e ∈ edits, ∀ x ∈ set.entries, x.overlaps e = false) →
          ∃ set', TakesDirectly source set edits set' ∧ Fits source set'.entries ∧
            set'.entries.Perm (set.entries ++ edits)
  | [], set, hfits, _, _, _ => ⟨set, .nil, hfits, by rw [List.append_nil]⟩
  | e :: edits, set, hfits, hbounds, hover, hentries => by
      obtain ⟨hfirst, hrest⟩ := List.pairwise_cons.mp hover
      obtain ⟨A, C, hAC, -, -, hplan, hcarry⟩ := plan_of_not_overlaps hfits
        (hbounds e List.mem_cons_self) (hentries e List.mem_cons_self)
      have hadd : set.add source e = .ok ⟨A ++ e :: C, set.revision + 1⟩ :=
        bind_eq_ok_iff.mpr ⟨_, hplan, hcarry⟩
      obtain ⟨set', htakes, hfits', hperm⟩ := exists_takesDirectly (add_fits hfits hadd).1
        (fun d hd => hbounds d (List.mem_cons_of_mem e hd)) hrest fun d hd x hx => by
          rw [List.mem_append, List.mem_cons, or_left_comm, ← List.mem_append, ← hAC] at hx
          rcases hx with rfl | hx
          · exact hfirst d hd
          · exact hentries d (List.mem_cons_of_mem e hd) x hx
      refine ⟨set', .cons hplan hcarry htakes, hfits', hperm.trans ?_⟩
      rw [hAC]
      calc (A ++ e :: C) ++ edits
          _ = A ++ e :: (C ++ edits) := List.append_assoc ..
          _ |>.Perm (A ++ (C ++ e :: edits)) := (List.perm_middle.symm).append_left A
          _ = (A ++ C) ++ e :: edits := (List.append_assoc ..).symm

/-- **Edits that do not overlap may arrive in any order.**  Whatever the order, every one is taken
directly, and the set comes to the edits sorted by place and to one text. -/
theorem EditSet.exists_text_of_disjoint (source : String) (edits : List Edit)
    (hbounds : ∀ e ∈ edits, OnBoundaries source e)
    (hover : edits.Pairwise fun a b => a.overlaps b = false) :
    ∃ text, applyAll source (sortByPlace edits) = .ok text ∧ ∀ order : List Edit,
      order.Perm edits → ∃ set, TakesDirectly source {} order set ∧
        ParsedFile.addAll source {} order = .ok set ∧ set.entries = sortByPlace edits ∧
          set.apply source = .ok text := by
  have hsorted : Fits source (sortByPlace edits) :=
    ⟨apart_sortByPlace hover, fun e he => hbounds e ((perm_sortByPlace edits).mem_iff.mp he)⟩
  refine ⟨_, applyAll_eq_ok hsorted, fun order horder => ?_⟩
  obtain ⟨set, htakes, hfits, hperm⟩ : ∃ set, TakesDirectly source {} order set ∧
      Fits source set.entries ∧ set.entries.Perm ([] ++ order) :=
    exists_takesDirectly (fits_nil source) (fun e he => hbounds e (horder.mem_iff.mp he))
      (pairwise_not_overlaps_perm hover horder) fun _ _ _ hx => absurd hx List.not_mem_nil
  have hentries : set.entries = sortByPlace edits := eq_sortByPlace hfits.apart (hperm.trans horder)
  exact ⟨set, htakes, htakes.addAll_eq, hentries, by rw [apply, hentries, applyAll_eq_ok hsorted]⟩

/-- A hook put around a replaced index, the closer first. -/
theorem EditSet.exists_text_of_hook : ∃ set,
    TakesDirectly "a[i] = 0;" {} [⟨3, 0, ") _H0)"⟩, ⟨2, 1, "j"⟩, ⟨2, 0, "(("⟩] set ∧
      set.apply "a[i] = 0;" = .ok "a[((j) _H0)] = 0;" := by
  obtain ⟨text, htext, horders⟩ := EditSet.exists_text_of_disjoint "a[i] = 0;"
    [⟨2, 1, "j"⟩, ⟨2, 0, "(("⟩, ⟨3, 0, ") _H0)"⟩] (by decide) (by decide)
  have hsort : sortByPlace [⟨2, 1, "j"⟩, ⟨2, 0, "(("⟩, ⟨3, 0, ") _H0)"⟩] =
      [⟨2, 0, "(("⟩, ⟨2, 1, "j"⟩, ⟨3, 0, ") _H0)"⟩] :=
    (eq_sortByPlace (by simp [apart_iff, stop]) (.swap ..)).symm
  have hsorted : applyAll "a[i] = 0;" (sortByPlace [⟨2, 1, "j"⟩, ⟨2, 0, "(("⟩, ⟨3, 0, ") _H0)"⟩]) =
      .ok "a[((j) _H0)] = 0;" := by
    rw [hsort]
    decide +kernel
  obtain ⟨set, htakes, -, -, happly⟩ := horders [⟨3, 0, ") _H0)"⟩, ⟨2, 1, "j"⟩, ⟨2, 0, "(("⟩]
    (by decide)
  exact ⟨set, htakes, happly.trans (htext.symm.trans hsorted)⟩

end ProbeWeaver
