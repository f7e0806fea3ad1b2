import ProbeWeaver.Proofs.Edit.Chains

/-!
# Proofs/Edit/Insertions — a set of insertions takes every insertion

In a set that only inserts, a new insertion meets at most the entry at its own offset, and its text
goes behind the text there (`add_insertion_at`); elsewhere it becomes an entry of its own
(`add_insertion_new`).  So no insertion is ever refused.

* `exists_add_insertion` — an insertion between characters is accepted.
* `InsertsOnly.isWovenInto` — the edited text is the source with texts put in.
-/

namespace ProbeWeaver

open Text Edit

variable {source : String} {j : Nat} {e x : Edit} {l A C : List Edit}
  {set : EditSet}

/-- **Only insertions.** -/
def InsertsOnly (l : List Edit) : Prop := ∀ e ∈ l, e.length = 0

theorem InsertsOnly.append_cons (h : InsertsOnly (A ++ C)) (he : e.length = 0) :
    InsertsOnly (A ++ e :: C) := by
  intro d hd
  rcases List.mem_append.mp hd with hd | hd
  · exact h d (List.mem_append_left C hd)
  · rcases List.mem_cons.mp hd with rfl | hd
    · exact he
    · exact h d (List.mem_append_right A hd)

theorem InsertsOnly.of_append_cons (h : InsertsOnly (A ++ x :: C)) : InsertsOnly (A ++ C) := by
  intro d hd
  rcases List.mem_append.mp hd with hd | hd
  · exact h d (List.mem_append_left _ hd)
  · exact h d (List.mem_append_right A (List.mem_cons_of_mem x hd))

theorem insertion_stop (he : e.length = 0) : e.stop = e.offset := by
  rw [stop_eq, he, Nat.add_zero]

/-- Insertions overlap exactly at one offset. -/
theorem insertion_overlaps_iff (hx : x.length = 0) (he : e.length = 0) :
    x.overlaps e = true ↔ x.offset = e.offset := by
  rw [overlaps_iff, if_pos ⟨hx, he⟩]

/-- Insertions apart from each other are at different offsets. -/
theorem insertion_apart_iff (hx : x.length = 0) (he : e.length = 0) :
    Apart x e ↔ x.offset < e.offset := by
  rw [apart_iff, insertion_stop hx]
  omega

/-! ## An insertion at a new offset -/

/-- **An insertion where there is none** becomes an entry of its own. -/
theorem add_insertion_new (h : Fits source set.entries) (hins : InsertsOnly set.entries)
    (he : e.length = 0) (hb : IsBoundary source e.offset)
    (hnew : ∀ x ∈ set.entries, x.offset ≠ e.offset) :
    ∃ A C, set.entries = A ++ C ∧ (∀ a ∈ A, a.offset < e.offset) ∧
      (∀ c ∈ C, e.offset < c.offset) ∧
        set.add source e = .ok ⟨A ++ e :: C, set.revision + 1⟩ := by
  have hover : ∀ x ∈ set.entries, x.overlaps e = false := fun x hx => by
    rw [Bool.eq_false_iff, ne_eq, insertion_overlaps_iff (hins x hx) he]
    exact hnew x hx
  have hon : OnBoundaries source e := ⟨hb, by rwa [insertion_stop he]⟩
  obtain ⟨A, C, hAC, hA, hC, hadd⟩ := add_of_not_overlaps h hon hover
  refine ⟨A, C, hAC, fun a ha => ?_, fun c hc => ?_, hadd⟩
  · exact (insertion_apart_iff (hins a (by rw [hAC]; exact List.mem_append_left C ha)) he).mp
      (hA a ha)
  · exact (insertion_apart_iff he (hins c (by rw [hAC]; exact List.mem_append_right A hc))).mp
      (hC c hc)

/-! ## An insertion at an old offset -/

/-- Insertions in front of another one are placed in front of its text. -/
theorem placed_stop_lt_insertion (h : Fits source (A ++ x :: C))
    (hins : InsertsOnly (A ++ x :: C)) :
    ∀ q ∈ placeFrom 0 A, (q.stop : Int) < x.offset + totalGrowth A := by
  obtain ⟨hA, -, hcross⟩ := List.pairwise_append.mp h.apart
  have hxlen := hins x (List.mem_append_right A List.mem_cons_self)
  have hbefore : ∀ a ∈ A, a.stop < x.offset := fun a ha => by
    have halen := hins a (List.mem_append_left _ ha)
    have := (insertion_apart_iff halen hxlen).mp (hcross a ha x List.mem_cons_self)
    rwa [insertion_stop halen]
  have hbetween : Between 0 A (x.offset - 1) :=
    between_of_apart hA (fun a ha => ⟨Nat.zero_le _, Nat.le_sub_one_of_lt (hbefore a ha)⟩)
      (Nat.zero_le _)
  intro q hq
  have hqA : q.edit ∈ A := by
    rw [← map_edit_placeFrom 0 A]
    exact List.mem_map_of_mem hq
  have hpos := hbefore q.edit hqA
  have := placed_stop_le (g := 0) hbetween (Int.le_refl 0) q hq
  omega

/-- **An insertion where there is one already** goes behind its text. -/
theorem add_insertion_at (h : Fits source set.entries) (hins : InsertsOnly set.entries)
    (he : e.length = 0) (hentries : set.entries = A ++ x :: C) (hx : x.offset = e.offset) :
    set.add source e =
      .ok ⟨A ++ ⟨x.offset, 0, x.text ++ e.text⟩ :: C, set.revision + 1⟩ := by
  have hfits : Fits source (A ++ x :: C) := hentries ▸ h
  have hinsAC : InsertsOnly (A ++ x :: C) := hentries ▸ hins
  have hxlen := hinsAC x (List.mem_append_right A List.mem_cons_self)
  obtain ⟨B, D, rfl, hchain, hadd⟩ := add_insertion_chain h he hentries hxlen hx fun q hq => by
    have := placed_stop_lt_insertion hfits hinsAC q hq
    omega
  cases B with
  | nil => rwa [editedBetween, reach, Nat.sub_self, slice_self, String.append_empty] at hadd
  | cons b B =>
    have hb : b ∈ x :: (b :: B ++ D) := List.mem_cons_of_mem x List.mem_cons_self
    have hxb := (insertion_apart_iff hxlen (hinsAC b (List.mem_append_right A hb))).mp
      ((List.pairwise_cons.mp (List.pairwise_append.mp hfits.apart).2.1).1 b List.mem_cons_self)
    have := hchain.1
    omega

/-! ## Insertions in a row -/

/-- **No insertion is refused**, and the set goes on to insert only. -/
theorem exists_add_insertion (h : Fits source set.entries) (hins : InsertsOnly set.entries)
    (he : e.length = 0) (hb : IsBoundary source e.offset) :
    ∃ set', set.add source e = .ok set' ∧ Fits source set'.entries ∧
      InsertsOnly set'.entries := by
  by_cases hold : ∃ x ∈ set.entries, x.offset = e.offset
  · obtain ⟨x, hx, hxe⟩ := hold
    obtain ⟨A, C, hentries⟩ := List.append_of_mem hx
    have hadd := add_insertion_at h hins he hentries hxe
    refine ⟨_, hadd, (add_fits h hadd).1, InsertsOnly.append_cons ?_ rfl⟩
    rw [hentries] at hins
    exact hins.of_append_cons
  · obtain ⟨A, C, hAC, -, -, hadd⟩ :=
      add_insertion_new h hins he hb fun x hx hxe => hold ⟨x, hx, hxe⟩
    refine ⟨_, hadd, (add_fits h hadd).1, InsertsOnly.append_cons ?_ he⟩
    rwa [← hAC]

/-! ## Woven texts -/

/-- **`edited` is `source` with texts put in**: the source falls into pieces, and a text was put
behind each of them but the last. -/
def Text.IsWovenInto (source edited : String) : Prop :=
  ∃ (pieces : List (String × String)) (rest : String),
    source = String.join (pieces.map (·.1)) ++ rest ∧
      edited = String.join (pieces.map fun p => p.1 ++ p.2) ++ rest

/-- The edited text from a boundary on is woven into the source from there on. -/
theorem InsertsOnly.isWovenInto_editedBetween : ∀ {i : Nat} {l : List Edit}, InsertsOnly l →
    IsBoundary source i → IsBoundary source j → (∀ e ∈ l, OnBoundaries source e) → Between i l j →
      Text.IsWovenInto (slice source i j) (editedBetween source i l j)
  | i, [], _, _, _, _, _ => ⟨[], slice source i j, rfl, rfl⟩
  | i, e :: l, hins, hi, hj, hb, hl => by
      obtain ⟨hstart, hstop⟩ := hb e List.mem_cons_self
      obtain ⟨pieces, rest, hsource, hedited⟩ := InsertsOnly.isWovenInto_editedBetween
        (fun d hd => hins d (List.mem_cons_of_mem e hd)) hstop hj
        (fun d hd => hb d (List.mem_cons_of_mem e hd)) hl.2
      rw [insertion_stop (hins e List.mem_cons_self)] at hsource hedited
      have hle : e.offset ≤ j := Nat.le_trans e.offset_le_stop hl.2.le
      refine ⟨(slice source i e.offset, e.text) :: pieces, rest, ?_, ?_⟩
      · rw [← slice_append_slice hi hstart hj hl.1 hle, hsource, List.map_cons,
          String.join_cons, String.append_assoc]
      · rw [editedBetween, insertion_stop (hins e List.mem_cons_self), hedited, List.map_cons,
          String.join_cons, String.append_assoc, String.append_assoc, String.append_assoc]

/-- **A set of insertions weaves texts into the source.** -/
theorem InsertsOnly.isWovenInto (h : Fits source l) (hins : InsertsOnly l) :
    Text.IsWovenInto source (editedBetween source 0 l source.utf8ByteSize) := by
  have := hins.isWovenInto_editedBetween (isBoundary_zero source) (isBoundary_size source)
    h.onBoundaries h.between
  rwa [slice_zero_size] at this

end ProbeWeaver
