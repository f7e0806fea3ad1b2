import ProbeWeaver.Proofs.Edit.Position

/-!
# Proofs/Edit/Touching — which entries a new edit has to do with

Searches over the entries stop at the first entry that is too far off.  On entries apart from each
other that loses nothing: a new edit meets an entry exactly when some entry overlaps it
(`meets_iff`), and an edit that keeps its size in the edited text touches the text of every entry it
overlaps (`exists_touched_of_overlaps`).
-/

namespace ProbeWeaver

open Edit

variable {α : Type} {j p start stop : Nat} {e x : Edit} {l m : List Edit} {set : EditSet}

/-! ## Searches that stop early -/

/-- A search that stops at the first failure finds all when success is passed on to the front. -/
theorem takeWhile_eq_filter {f : α → Bool} : ∀ {l : List α},
    l.Pairwise (fun a b => f b = true → f a = true) → l.takeWhile f = l.filter f
  | [], _ => rfl
  | a :: l, h => by
      obtain ⟨hfirst, hrest⟩ := List.pairwise_cons.mp h
      by_cases ha : f a = true
      · rw [List.takeWhile_cons_of_pos ha, List.filter_cons_of_pos ha, takeWhile_eq_filter hrest]
      · rw [List.takeWhile_cons_of_neg ha, List.filter_cons_of_neg ha]
        exact (List.filter_eq_nil_iff.mpr fun b hb hfb => ha (hfirst b hb hfb)).symm

/-- What such a search leaves fails its test. -/
theorem dropWhile_eq_filter {f : α → Bool} : ∀ {l : List α},
    l.Pairwise (fun a b => f b = true → f a = true) → l.dropWhile f = l.filter fun a => !f a
  | [], _ => rfl
  | a :: l, h => by
      obtain ⟨hfirst, hrest⟩ := List.pairwise_cons.mp h
      by_cases ha : f a = true
      · rw [List.dropWhile_cons_of_pos ha, List.filter_cons_of_neg (by simp [ha]),
          dropWhile_eq_filter hrest]
      · rw [List.dropWhile_cons_of_neg ha, List.filter_eq_self.mpr]
        refine List.forall_mem_cons.mpr ⟨by simpa using ha, fun b hb => ?_⟩
        have hfb : f b ≠ true := fun hfb => ha (hfirst b hb hfb)
        simpa using hfb

/-- **The entries around a range** are those that do not end before it or start behind it. -/
theorem around_eq_filter (h : set.entries.Pairwise Apart) :
    set.around e = set.entries.filter fun x => e.offset ≤ x.stop ∧ x.offset ≤ e.stop := by
  have hfront : set.entries.Pairwise fun a b =>
      decide (b.stop < e.offset) = true → decide (a.stop < e.offset) = true :=
    h.imp fun {a b} hab hb => by
      have := b.offset_le_stop
      have := hab.2
      rw [decide_eq_true_iff] at hb ⊢
      omega
  have hback : set.entries.Pairwise fun a b =>
      decide (b.offset ≤ e.stop) = true → decide (a.offset ≤ e.stop) = true :=
    h.imp fun {a b} hab hb => by
      have := a.offset_le_stop
      have := hab.2
      rw [decide_eq_true_iff] at hb ⊢
      omega
  rw [EditSet.around, takeWhile_eq_filter (hback.sublist (List.dropWhile_sublist _)),
    dropWhile_eq_filter hfront, List.filter_filter]
  refine List.filter_congr fun x _ => ?_
  rw [Bool.eq_iff_iff]
  simp [and_comm]

/-- **A new edit meets an entry exactly when some entry overlaps it.** -/
theorem meets_iff (h : set.entries.Pairwise Apart) :
    set.meets e = true ↔ ∃ x ∈ set.entries, x.overlaps e = true := by
  rw [EditSet.meets, List.any_eq_true, around_eq_filter h]
  refine ⟨fun ⟨x, hx, hover⟩ => ⟨x, (List.mem_filter.mp hx).1, hover⟩,
    fun ⟨x, hx, hover⟩ => ⟨x, List.mem_filter.mpr ⟨hx, decide_eq_true ?_⟩, hover⟩⟩
  have hxs := x.stop_eq
  have hes := e.stop_eq
  rw [overlaps_iff] at hover
  split at hover <;> omega

/-! ## The edited range -/

/-- **The entries whose new text a range of the edited text touches.** -/
def EditSet.touched (set : EditSet) (start stop : Nat) : List PlacedEdit :=
  (placeFrom 0 set.entries).filter fun q => start ≤ q.stop ∧ q.start ≤ stop

theorem EditSet.mem_touched_iff {q : PlacedEdit} :
    q ∈ set.touched start stop ↔
      q ∈ placeFrom 0 set.entries ∧ start ≤ q.stop ∧ q.start ≤ stop := by
  rw [touched, List.mem_filter, decide_eq_true_iff]

/-- **The search over the placed entries** finds those that are touched. -/
theorem EditSet.touched_eq_takeWhile (h : Between 0 set.entries j) :
    set.touched start stop =
      ((placeFrom 0 set.entries).dropWhile (·.stop < start)).takeWhile (·.start ≤ stop) := by
  have hpairs := (pairwise_placeFrom (g := 0) h (Int.le_refl 0)).1
  have hfront : (placeFrom 0 set.entries).Pairwise fun q r =>
      decide (r.stop < start) = true → decide (q.stop < start) = true :=
    hpairs.imp fun {q r} hqr hr => by
      have : r.start ≤ r.stop := Nat.le_add_right _ _
      rw [decide_eq_true_iff] at hr ⊢
      omega
  have hback : (placeFrom 0 set.entries).Pairwise fun q r =>
      decide (r.start ≤ stop) = true → decide (q.start ≤ stop) = true :=
    hpairs.imp fun {q r} hqr hr => by
      have : q.start ≤ q.stop := Nat.le_add_right _ _
      rw [decide_eq_true_iff] at hr ⊢
      omega
  rw [touched, takeWhile_eq_filter (hback.sublist (List.dropWhile_sublist _)),
    dropWhile_eq_filter hfront, List.filter_filter]
  refine List.filter_congr fun q _ => ?_
  rw [Bool.eq_iff_iff]
  simp [and_comm]

/-- **An edit touches the text of every entry it overlaps**, its range carried into the edited
text. -/
theorem exists_touched_of_overlaps (hl : Between 0 l j) (hapart : l.Pairwise Apart) (hx : x ∈ l)
    (hover : x.overlaps e = true) :
    ∃ q ∈ placeFrom 0 l, q.start ≤ editedOffsetFrom 0 e.stop l ∧
      editedOffsetFrom 0 e.offset l ≤ q.stop := by
  obtain ⟨l₁, l₂, rfl⟩ := List.append_of_mem hx
  have hgrow := (Between.left_of_append_cons hl).le_add_growth
  refine ⟨_, mem_placeFrom_append_cons 0 l₁ x l₂, ?_⟩
  show (x.offset + (0 + totalGrowth l₁)).toNat ≤ _ ∧
    _ ≤ (x.offset + (0 + totalGrowth l₁)).toNat + x.size
  have hxs := x.stop_eq
  have hes := e.stop_eq
  rw [overlaps_iff] at hover
  split at hover
  · next hins =>
    have hbehind : ∀ d ∈ l₂.head?, Apart x d := fun d hd =>
      (List.pairwise_cons.mp (List.pairwise_append.mp hapart).2.1).1 d (List.mem_of_mem_head? hd)
    have hoffset := editedOffsetFrom_insertion (g := 0) hl hins.1 hbehind
    rw [hover] at hoffset
    have hstop : e.stop = e.offset := by omega
    rw [hstop, hoffset]
    omega
  · have hfirst := le_editedOffsetFrom_append_cons (g := 0) hl (p := e.stop) (by omega)
    have hlast := editedOffsetFrom_append_cons_le (g := 0) hl (by omega) (p := e.offset) (by omega)
    omega

end ProbeWeaver
