import ProbeWeaver.Proofs.Edit.Accumulation

/-!
# Proofs/Edit/Chains — what an insertion is folded with

An edit that overlaps no entry becomes an entry of its own (`add_of_not_overlaps`).  A second
insertion at an offset goes behind the text of the first one, and takes along what stands there: the
entries joined to the offset by entries without a text, a `Chained` list (`add_insertion_chain`).
-/

namespace ProbeWeaver

open Text Edit

variable {source : String} {i j start : Nat} {g : Int} {e x : Edit} {l m A B C : List Edit}
  {set : EditSet}

/-! ## An edit apart from all entries -/

/-- **An edit that overlaps no entry** is planned as an entry of its own, and the plan is carried
out. -/
theorem plan_of_not_overlaps (h : Fits source set.entries) (he : OnBoundaries source e)
    (hover : ∀ x ∈ set.entries, x.overlaps e = false) :
    ∃ A C, set.entries = A ++ C ∧ (∀ a ∈ A, Apart a e) ∧ (∀ c ∈ C, Apart e c) ∧
      set.plan source e = .ok (.direct A.length e set.revision) ∧
      set.carryOut (.direct A.length e set.revision) = .ok ⟨A ++ e :: C, set.revision + 1⟩ := by
  have hmeets : set.meets e = false := by
    rw [Bool.eq_false_iff, ne_eq, meets_iff h.apart]
    rintro ⟨x, hx, hxe⟩
    rw [hover x hx] at hxe
    exact nomatch hxe
  obtain ⟨A, C, hAC, htake, hA, hC⟩ := exists_cut_of_not_overlaps h.apart hover
  refine ⟨A, C, hAC, hA, hC, ?_, ?_⟩
  · rw [EditSet.plan_of_not_meets he hmeets, htake]
  · rw [carryOut_of_revision_eq rfl, entriesAfter_direct hAC]

/-- **An edit that overlaps no entry** becomes an entry of its own. -/
theorem add_of_not_overlaps (h : Fits source set.entries) (he : OnBoundaries source e)
    (hover : ∀ x ∈ set.entries, x.overlaps e = false) :
    ∃ A C, set.entries = A ++ C ∧ (∀ a ∈ A, Apart a e) ∧ (∀ c ∈ C, Apart e c) ∧
      set.add source e = .ok ⟨A ++ e :: C, set.revision + 1⟩ := by
  obtain ⟨A, C, hAC, hA, hC, hplan, hcarry⟩ := plan_of_not_overlaps h he hover
  exact ⟨A, C, hAC, hA, hC, bind_eq_ok_iff.mpr ⟨_, hplan, hcarry⟩⟩

/-! ## Chains -/

namespace Edit

/-- Where a list of edits one behind the other ends. -/
def reach : Nat → List Edit → Nat
  | i, [] => i
  | _, e :: l => reach e.stop l

/-- **A chain**: each edit starts where the one before it ends, and only the last one has a text. -/
def Chained : Nat → List Edit → Prop
  | _, [] => True
  | i, e :: l => e.offset = i ∧ (l ≠ [] → e.size = 0) ∧ Chained e.stop l

theorem Between.reach : ∀ {i : Nat} {l : List Edit}, Between i l j → Between i l (reach i l)
  | i, [], _ => Nat.le_refl i
  | _, _ :: _, h => ⟨h.1, Between.reach h.2⟩

theorem reach_concat : ∀ (i : Nat) (l : List Edit) (e : Edit), reach i (l ++ [e]) = e.stop
  | _, [], _ => rfl
  | _, d :: l, e => reach_concat d.stop l e

end Edit

theorem isBoundary_reach : ∀ {i : Nat} {l : List Edit}, IsBoundary source i →
    (∀ e ∈ l, OnBoundaries source e) → IsBoundary source (reach i l)
  | _, [], hi, _ => hi
  | _, e :: l, _, hl =>
      isBoundary_reach (i := e.stop) (l := l) (hl e List.mem_cons_self).2 fun d hd =>
        hl d (List.mem_cons_of_mem e hd)

/-- **Edits placed no further than where the first one may start** are a chain. -/
theorem chained_of_placed_start_le : ∀ {g : Int} {i : Nat} {l : List Edit}, Between i l j →
    0 ≤ i + g → (∀ q ∈ placeFrom g l, (q.start : Int) ≤ i + g) → Chained i l
  | _, _, [], _, _, _ => trivial
  | g, i, e :: l, hl, hg, hstart => by
      have hie := hl.1
      have hes := e.stop_eq
      have he : ((e.offset + g).toNat : Int) ≤ i + g := hstart _ List.mem_cons_self
      have hgrow : (e.stop : Int) + (g + e.growth) = i + g + e.size := by
        rw [growth]
        omega
      have hpos : 0 ≤ (e.stop : Int) + (g + e.growth) := by omega
      have hbehind := (pairwise_placeFrom hl.2 hpos).2
      have hrest : ∀ q ∈ placeFrom (g + e.growth) l, (q.start : Int) ≤ i + g := fun q hq =>
        hstart q (List.mem_cons_of_mem _ hq)
      refine ⟨by omega, fun hne => ?_, ?_⟩
      · obtain ⟨d, l, rfl⟩ := List.exists_cons_of_ne_nil hne
        have hfront := hrest _ List.mem_cons_self
        have hback := hbehind _ List.mem_cons_self
        omega
      · refine chained_of_placed_start_le hl.2 hpos fun q hq => ?_
        have := hrest q hq
        omega

/-! ## Folding an insertion -/

/-- The region of an insertion and the entries that are placed where its text ends. -/
theorem regionOf_chain (set : EditSet) (hfits : Fits source (x :: l)) (hx : x.length = 0)
    (hstart : (start : Int) = x.offset + g)
    (hplaced : ∀ q ∈ placeFrom (g + x.growth) l, q.start = start + x.size) :
    set.regionOf source (start + x.size) (start + x.size) (placeFrom g (x :: l)) =
      .ok ⟨start, x.offset, reach x.offset l,
        x.text ++ editedBetween source x.offset l (reach x.offset l)⟩ := by
  have hxs : x.stop = x.offset := by rw [stop_eq, hx, Nat.add_zero]
  have hhead : (x.offset + g).toNat = start := by omega
  have hboundary := (hfits.onBoundaries x List.mem_cons_self).1
  -- the last entry of the group ends the region, in the edited text and in the source
  obtain ⟨last, hlast, hstop, hreach⟩ : ∃ last, (placeFrom g (x :: l)).getLast? = some last ∧
      start + x.size ≤ last.stop ∧ last.edit.stop = reach x.offset l := by
    by_cases hl : l = []
    · subst hl
      refine ⟨⟨x, start⟩, ?_, Nat.le_refl _, hxs⟩
      rw [placeFrom, placeFrom_nil, List.getLast?_singleton, hhead]
    · obtain ⟨l, t, rfl⟩ : ∃ l' t, l = l' ++ [t] := ⟨_, _, (List.dropLast_concat_getLast hl).symm⟩
      have hstarts := hplaced _ (mem_placeFrom_append_cons (g + x.growth) l t [])
      refine ⟨⟨t, start + x.size⟩, ?_, Nat.le_add_right _ _, (reach_concat _ l t).symm⟩
      rw [placeFrom, List.getLast?_cons, getLast?_placeFrom_concat]
      exact congrArg (fun n => some (PlacedEdit.mk t n)) hstarts
  have hle : x.offset ≤ reach x.offset l := by
    have hbetween := hfits.between
    rw [Between, hxs] at hbetween
    exact hbetween.2.reach.le
  have hrange : checkRange source x.offset (reach x.offset l) = .ok () :=
    checkRange_eq_ok_iff.mpr ⟨hle, hboundary,
      isBoundary_reach hboundary fun d hd => hfits.onBoundaries d (List.mem_cons_of_mem x hd)⟩
  rw [EditSet.regionOf, hlast, placeFrom, List.head?_cons]
  simp only [hhead, Nat.min_eq_right (Nat.le_add_right start x.size), Nat.sub_self, Nat.sub_zero,
    Nat.max_eq_right hstop, Nat.add_zero, hreach, List.map_cons, map_edit_placeFrom, editedBetween,
    slice_self, String.empty_append, hxs, hrange]
  rfl

/-- The entries around an insertion, cut at the offset behind its text: those placed before it, the
chain behind it, and the rest. -/
theorem exists_chain (h : Fits source (A ++ x :: C)) (hx : x.length = 0)
    (hstart : (start : Int) = x.offset + totalGrowth A)
    (hA : ∀ q ∈ placeFrom 0 A, q.stop < start + x.size) :
    ∃ B D, C = B ++ D ∧ Chained x.offset B ∧
      (∀ q ∈ placeFrom (totalGrowth A + x.growth) B, q.start = start + x.size) ∧
      (placeFrom 0 (A ++ x :: C)).takeWhile (·.stop < start + x.size) = placeFrom 0 A ∧
      ((placeFrom 0 (A ++ x :: C)).drop A.length).takeWhile (·.start ≤ start + x.size) =
        placeFrom (totalGrowth A) (x :: B) := by
  have hxs : x.stop = x.offset := by rw [stop_eq, hx, Nat.add_zero]
  have hxstart : (x.offset + (0 + totalGrowth A)).toNat = start := by omega
  have hgrow : (x.offset : Int) + (totalGrowth A + x.growth) = (start + x.size : Nat) := by
    rw [growth, hx]
    omega
  obtain ⟨B, D, rfl, hB, -⟩ :=
    exists_cut_placeFrom (fun q => decide (q.start ≤ start + x.size)) (totalGrowth A + x.growth) C
  have hbetween : Between x.offset B source.utf8ByteSize := by
    have hxC := h.between.right_of_append_cons
    rw [hxs] at hxC
    obtain ⟨k, hxB, hD⟩ := hxC.exists_mid
    have hsub : (B : List Edit).Sublist (A ++ x :: (B ++ D)) :=
      ((List.sublist_append_left B D).cons x).trans (List.sublist_append_right A _)
    exact between_of_apart (h.apart.sublist hsub)
      (fun b hb => ⟨(hxB.mem hb).1, Nat.le_trans (hxB.mem hb).2 hD.le⟩) hxC.le
  have hle : ∀ q ∈ placeFrom (totalGrowth A + x.growth) B, q.start ≤ start + x.size := by
    intro q hq
    rw [← hB] at hq
    exact of_decide_eq_true (List.all_eq_true.mp List.all_takeWhile q hq)
  have hpos : 0 ≤ (x.offset : Int) + (totalGrowth A + x.growth) := by omega
  have hge := (pairwise_placeFrom hbetween hpos).2
  refine ⟨B, D, rfl, chained_of_placed_start_le hbetween hpos fun q hq => ?_, fun q hq => ?_,
    ?_, ?_⟩
  · have := hle q hq
    omega
  · have := hle q hq
    have := hge q hq
    omega
  · rw [placeFrom_append, placeFrom, hxstart,
      List.takeWhile_append_of_pos fun q hq => decide_eq_true (hA q hq),
      List.takeWhile_cons_of_neg (by simp [PlacedEdit.stop]), List.append_nil]
  · rw [placeFrom_append, ← length_placeFrom 0 A, List.drop_left, placeFrom, hxstart,
      List.takeWhile_cons_of_pos (by simp), Int.zero_add, hB, placeFrom, ← hxstart, Int.zero_add]

/-- **What is folded behind an insertion**: the text put at its end, and the chain that follows. -/
theorem foldInto_chain (h : Fits source (A ++ x :: C)) (he : e.length = 0)
    (hentries : set.entries = A ++ x :: C) (hx : x.length = 0)
    (hstart : (start : Int) = x.offset + totalGrowth A)
    (hA : ∀ q ∈ placeFrom 0 A, q.stop < start + x.size) :
    ∃ B D, C = B ++ D ∧ Chained x.offset B ∧
      set.foldInto source (start + x.size) e =
        .ok (.merged A.length (A.length + (x :: B).length) ⟨x.offset, reach x.offset B - x.offset,
          x.text ++ e.text ++ editedBetween source x.offset B (reach x.offset B)⟩
            set.revision) := by
  obtain ⟨B, D, rfl, hchain, hplaced, hcut, hgroup⟩ := exists_chain h hx hstart hA
  have hxB : Fits source (x :: B) := h.sublist
    (((List.sublist_append_left B D).cons_cons x).trans (List.sublist_append_right A _))
  have hregion := regionOf_chain set hxB hx hstart hplaced
  refine ⟨B, D, rfl, hchain, ?_⟩
  rw [EditSet.foldInto, hentries, hcut, length_placeFrom, he, Nat.add_zero, hgroup,
    length_placeFrom]
  refine bind_eq_ok_iff.mpr ⟨_, hregion, ?_⟩
  dsimp only
  rw [Nat.add_sub_cancel_left, Nat.add_zero, size,
    if_pos ⟨isBoundary_append x.text _, isBoundary_append x.text _⟩, slice_append_left,
    sliceFrom_append]

/-- **A second insertion at an offset** goes behind the text of the first one, and the two are
folded with the chain that follows. -/
theorem add_insertion_chain (h : Fits source set.entries) (he : e.length = 0)
    (hentries : set.entries = A ++ x :: C) (hx : x.length = 0) (hxe : x.offset = e.offset)
    (hA : ∀ q ∈ placeFrom 0 A, (q.stop : Int) < x.offset + totalGrowth A + x.size) :
    ∃ B D, C = B ++ D ∧ Chained x.offset B ∧
      set.add source e = .ok ⟨A ++ ⟨x.offset, reach x.offset B - x.offset,
        x.text ++ e.text ++ editedBetween source x.offset B (reach x.offset B)⟩ :: D,
          set.revision + 1⟩ := by
  have hfits : Fits source (A ++ x :: C) := hentries ▸ h
  have hxmem : x ∈ set.entries := by
    rw [hentries]
    exact List.mem_append_right A List.mem_cons_self
  have hes : e.stop = e.offset := by rw [stop_eq, he, Nat.add_zero]
  have hon : OnBoundaries source e := by
    have hx := (h.onBoundaries x hxmem).1
    rw [OnBoundaries, hes, ← hxe]
    exact ⟨hx, hx⟩
  have hgrow := hfits.between.left_of_append_cons.le_add_growth
  obtain ⟨start, hstart⟩ : ∃ start : Nat, (start : Int) = x.offset + totalGrowth A :=
    ⟨(x.offset + totalGrowth A).toNat, by omega⟩
  obtain ⟨B, D, rfl, hchain, hfold⟩ := foldInto_chain hfits he hentries hx hstart fun q hq => by
    have := hA q hq
    omega
  refine ⟨B, D, rfl, hchain, ?_⟩
  have hoffset : set.editedOffset e.offset = start + x.size := by
    rw [EditSet.editedOffset, hentries, ← hxe, editedOffsetFrom_insertion hfits.between hx]
    · omega
    · intro c hc
      exact (List.pairwise_cons.mp (List.pairwise_append.mp hfits.apart).2.1).1 c
        (List.mem_of_mem_head? hc)
  have hmeets : set.meets e = true := (meets_iff h.apart).mpr ⟨x, hxmem, by
    rw [overlaps_iff, if_pos ⟨hx, he⟩]
    exact hxe⟩
  have hplan : set.plan source e = set.foldInto source (start + x.size) e := by
    rw [EditSet.plan_of_meets hon hmeets, hes, hoffset, Nat.sub_self, if_pos he.symm]
  refine bind_eq_ok_iff.mpr ⟨_, hplan.trans hfold, ?_⟩
  rw [carryOut_of_revision_eq rfl]
  congr 2
  exact entriesAfter_merged (B := x :: B) (by rw [hentries]; simp)

end ProbeWeaver
