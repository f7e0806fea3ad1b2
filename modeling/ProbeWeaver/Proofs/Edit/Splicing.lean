import ProbeWeaver.Proofs.Text.Occurrences
import ProbeWeaver.Proofs.Text.Weaving

/-!
# Proofs/Edit/Splicing — insertions compose in order of arrival

`splice` puts one text at one offset.  Ordered insertions are spliced in from the last to the first,
so that an offset is still what it was in the source when its turn comes (`spliceAll`); two
insertions at one offset then stand in the order of the list.

A set that took insertions one by one gives the same text.  It has the texts for each offset in order
of arrival (`EditSet.Gathers`), and a stable sort keeps that order (`textAt_mergeSort`).

* `spliceAll_eq_weave` — splicing ordered insertions in weaves in what is there for each offset.
* `EditSet.Gathers.insertsWithin_iff` — what a search of the inserted texts sees.
* `EditSet.exists_composes` — insertions between characters, in any order.
-/

namespace ProbeWeaver

open Text Edit

variable {source needle : String} {offset start stop : Nat} {e : Edit} {edits more l : List Edit}
  {set set' : EditSet}

/-! ## Splicing -/

/-- **The text with `t` put in** at an offset. -/
def Text.splice (s : String) (offset : Nat) (t : String) : String :=
  slice s 0 offset ++ t ++ sliceFrom s offset

/-- **Ordered insertions spliced in**, the last one first. -/
def spliceAll (source : String) (edits : List Edit) : String :=
  edits.foldr (fun e s => splice s e.offset e.text) source

/-- Splicing between two parts of a text. -/
theorem Text.splice_append {p : String} (hp : p.utf8ByteSize = offset) (q t : String) :
    splice (p ++ q) offset t = p ++ (t ++ q) := by
  subst hp
  rw [splice, slice_append_left, sliceFrom_append, String.append_assoc]

theorem textAt_cons (e : Edit) (l : List Edit) (offset : Nat) :
    textAt (e :: l) offset = textAt [e] offset ++ textAt l offset := textAt_append [e] l offset

/-- With nothing put before it, the text up to a boundary is the source. -/
theorem weave_textAt_of_le (ho : IsBoundary source offset) (h : ∀ d ∈ l, offset ≤ d.offset) :
    weave (textAt l) source 0 source.utf8ByteSize =
      slice source 0 offset ++ weave (textAt l) source offset source.utf8ByteSize := by
  rw [weave_cut (isBoundary_zero source) ho (isBoundary_size source) (Nat.zero_le _) ho.le_size
    (String.empty_append ..).symm, Function.update_eq_self]
  congr 1
  refine weave_of_empty (isBoundary_zero source) ho (Nat.zero_le _) fun x _ hx => ?_
  rcases Nat.eq_or_lt_of_le hx with rfl | hlt
  · exact Function.update_self ..
  · rw [Function.update_of_ne (Nat.ne_of_lt hlt)]
    exact textAt_of_forall_ne fun d hd => Nat.ne_of_gt (Nat.lt_of_lt_of_le hlt (h d hd))

/-- **One more insertion in front** of ordered ones. -/
theorem splice_weave (he : IsBoundary source e.offset) (h : ∀ d ∈ l, e.offset ≤ d.offset) :
    splice (weave (textAt l) source 0 source.utf8ByteSize) e.offset e.text =
      weave (textAt (e :: l)) source 0 source.utf8ByteSize := by
  have hsize := isBoundary_size source
  have hfront : (slice source 0 e.offset).utf8ByteSize = e.offset := by
    rw [size_slice (isBoundary_zero source) he (Nat.zero_le _), Nat.sub_zero]
  have hput : textAt (e :: l) e.offset = e.text ++ textAt l e.offset := by
    rw [textAt_cons, textAt_singleton]
  have hbehind : Function.update (textAt (e :: l)) e.offset (textAt l e.offset) = textAt l := by
    refine funext fun x => ?_
    by_cases hx : x = e.offset
    · rw [hx, Function.update_self]
    · rw [Function.update_of_ne hx, textAt_cons, textAt_of_forall_ne, String.empty_append]
      simpa using Ne.symm hx
  rw [weave_textAt_of_le he h, weave_textAt_of_le he (by simpa using h), splice_append hfront,
    weave_cut he he hsize (Nat.le_refl _) he.le_size hput, weave_self, Function.update_self, hbehind]

/-- **Ordered insertions spliced in** put at each offset what is there for it. -/
theorem spliceAll_eq_weave : ∀ {l : List Edit}, (∀ e ∈ l, IsBoundary source e.offset) →
    l.Pairwise (·.offset ≤ ·.offset) →
      spliceAll source l = weave (textAt l) source 0 source.utf8ByteSize
  | [], _, _ => by
      have hnone : ∀ x, 0 ≤ x → x ≤ source.utf8ByteSize → textAt [] x = "" := fun _ _ _ => rfl
      rw [weave_of_empty (isBoundary_zero source) (isBoundary_size source) (Nat.zero_le _) hnone,
        slice_zero_size]
      rfl
  | e :: l, hb, hl => by
      obtain ⟨hfirst, hrest⟩ := List.pairwise_cons.mp hl
      rw [← splice_weave (hb e List.mem_cons_self) hfirst,
        ← spliceAll_eq_weave (fun d hd => hb d (List.mem_cons_of_mem e hd)) hrest]
      rfl

/-! ## A stable sort -/

/-- **Edits ordered by offset**, those at one offset in their order. -/
def sortByOffset (edits : List Edit) : List Edit :=
  edits.mergeSort fun a b => a.offset ≤ b.offset

theorem le_trans_offset (a b c : Edit) (hab : decide (a.offset ≤ b.offset) = true)
    (hbc : decide (b.offset ≤ c.offset) = true) : decide (a.offset ≤ c.offset) = true :=
  decide_eq_true (Nat.le_trans (of_decide_eq_true hab) (of_decide_eq_true hbc))

theorem le_total_offset (a b : Edit) :
    (decide (a.offset ≤ b.offset) || decide (b.offset ≤ a.offset)) = true := by
  simpa using Nat.le_total a.offset b.offset

theorem pairwise_sortByOffset (edits : List Edit) :
    (sortByOffset edits).Pairwise (·.offset ≤ ·.offset) :=
  (List.pairwise_mergeSort le_trans_offset le_total_offset edits).imp of_decide_eq_true

theorem mem_sortByOffset : e ∈ sortByOffset edits ↔ e ∈ edits := List.mem_mergeSort

/-- What a stable sort leaves of one offset. -/
theorem filter_sortByOffset (edits : List Edit) (offset : Nat) :
    (sortByOffset edits).filter (·.offset == offset) = edits.filter (·.offset == offset) := by
  have hlevel : (edits.filter (·.offset == offset)).Pairwise
      fun a b => decide (a.offset ≤ b.offset) = true :=
    List.pairwise_of_forall_mem_list fun a ha b hb => by
      simp only [List.mem_filter, beq_iff_eq] at ha hb
      exact decide_eq_true (Nat.le_of_eq (ha.2.trans hb.2.symm))
  have hsub := (List.sublist_mergeSort le_trans_offset le_total_offset hlevel
    List.filter_sublist).filter (·.offset == offset)
  have hperm := (List.mergeSort_perm edits fun a b => a.offset ≤ b.offset).filter
    (·.offset == offset)
  rw [List.filter_filter] at hsub
  simp only [Bool.and_self] at hsub
  exact (hsub.eq_of_length hperm.length_eq.symm).symm

/-- **A stable sort keeps the order of arrival** at each offset. -/
theorem textAt_sortByOffset (edits : List Edit) : textAt (sortByOffset edits) = textAt edits := by
  refine funext fun offset => ?_
  rw [textAt, textAt, filter_sortByOffset]

/-! ## The set -/

/-- **What a search sees**: the needle in what arrived for an offset of the range. -/
theorem EditSet.Gathers.insertsWithin_iff (h : set.Gathers edits) :
    set.insertsWithin start stop needle = true ↔
      ∃ offset, start ≤ offset ∧ offset ≤ stop ∧ (∃ e ∈ edits, e.offset = offset) ∧
        Text.contains (textAt edits offset) needle = true := by
  simp only [insertsWithin, List.any_eq_true, Bool.and_eq_true, decide_eq_true_eq]
  constructor
  · rintro ⟨x, hx, ⟨hstop, hstart⟩, hneedle⟩
    rw [insertion_stop (h.inserts x hx)] at hstart
    exact ⟨x.offset, hstart, hstop, (h.offsets _).mp ⟨x, hx, rfl⟩, h.text x hx ▸ hneedle⟩
  · rintro ⟨offset, hstart, hstop, hmem, hneedle⟩
    obtain ⟨x, hx, rfl⟩ := (h.offsets offset).mpr hmem
    refine ⟨x, hx, ⟨hstop, ?_⟩, (h.text x hx).symm ▸ hneedle⟩
    rwa [insertion_stop (h.inserts x hx)]

/-- Insertions between characters of the text. -/
def AreInsertions (source : String) (edits : List Edit) : Prop :=
  ∀ e ∈ edits, e.length = 0 ∧ IsBoundary source e.offset

instance (source : String) (edits : List Edit) : Decidable (AreInsertions source edits) :=
  inferInstanceAs (Decidable (∀ e ∈ edits, e.length = 0 ∧ IsBoundary source e.offset))

/-- **The set composes the insertions**: `gathers` and `applied` say what it holds and gives, `sees`
what a search finds, and `keeps` that later insertions are accepted and hide nothing. -/
structure EditSet.Composes (source : String) (edits : List Edit) (set : EditSet) : Prop where
  gathers : set.Gathers edits
  applied : set.apply source = .ok (spliceAll source (sortByOffset edits))
  sees : ∀ start stop needle, set.insertsWithin start stop needle = true ↔
    ∃ offset, start ≤ offset ∧ offset ≤ stop ∧ (∃ e ∈ edits, e.offset = offset) ∧
      Text.contains (textAt edits offset) needle = true
  keeps : ∀ more, AreInsertions source more → ∃ set', ParsedFile.addAll source set more = .ok set' ∧
    ∀ start stop needle, set.insertsWithin start stop needle = true →
      set'.insertsWithin start stop needle = true

/-- More insertions leave what was seen in sight. -/
theorem EditSet.Gathers.insertsWithin_mono (h : set.Gathers edits) (h' : set'.Gathers (edits ++ more))
    (hseen : set.insertsWithin start stop needle = true) :
    set'.insertsWithin start stop needle = true := by
  obtain ⟨offset, hstart, hstop, ⟨e, he, heq⟩, hneedle⟩ := h.insertsWithin_iff.mp hseen
  refine h'.insertsWithin_iff.mpr
    ⟨offset, hstart, hstop, ⟨e, List.mem_append_left more he, heq⟩, ?_⟩
  rw [textAt_append, contains, String.toList_append]
  exact hasInfix_append_left _ hneedle

/-- **Insertions compose in order of arrival**, whatever the order of their offsets. -/
theorem EditSet.exists_composes (h : AreInsertions source edits) :
    ∃ set, ParsedFile.addAll source {} edits = .ok set ∧ EditSet.Composes source edits set := by
  obtain ⟨set, hadd, hfits, hins⟩ :=
    ParsedFile.exists_addAll_insertions (fits_nil source) EditSet.Gathers.empty.inserts h
  have hgathers : set.Gathers edits :=
    (EditSet.Gathers.empty.addAll (fits_nil source) (fun e he => (h e he).1) hadd).1
  refine ⟨set, hadd, hgathers, ?_, fun _ _ _ => hgathers.insertsWithin_iff, fun more hmore => ?_⟩
  · rw [hgathers.apply_eq hfits, ← textAt_sortByOffset, ← spliceAll_eq_weave
      (fun e he => (h e (mem_sortByOffset.mp he)).2) (pairwise_sortByOffset edits)]
  · obtain ⟨set', hmoreAdd, -, -⟩ := ParsedFile.exists_addAll_insertions hfits hins hmore
    have hgathers' := (hgathers.addAll hfits (fun e he => (hmore e he).1) hmoreAdd).1
    exact ⟨set', hmoreAdd, fun _ _ _ => hgathers.insertsWithin_mono hgathers'⟩

/-- Two insertions at one offset keep their order, and one at an earlier offset comes first. -/
theorem EditSet.exists_composes_of_three : ∃ set,
    ParsedFile.addAll "ab" {} [.insertion 2 "y", .insertion 0 "x", .insertion 2 "z"] = .ok set ∧
      set.apply "ab" = .ok "xabyz" := by
  have h : AreInsertions "ab" [.insertion 2 "y", .insertion 0 "x", .insertion 2 "z"] := by
    decide +kernel
  have hsort : sortByOffset [.insertion 2 "y", .insertion 0 "x", .insertion 2 "z"] =
      [.insertion 0 "x", .insertion 2 "y", .insertion 2 "z"] := by
    simp [sortByOffset, List.mergeSort, List.MergeSort.Internal.splitInTwo, insertion]
  obtain ⟨set, hadd, hset⟩ := EditSet.exists_composes h
  refine ⟨set, hadd, hset.applied.trans ?_⟩
  rw [hsort]
  decide +kernel

end ProbeWeaver
