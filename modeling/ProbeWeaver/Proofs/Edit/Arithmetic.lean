import Mathlib.Order.Interval.Set.Defs
import Mathlib.Order.Monotone.Defs
import ProbeWeaver.Proofs.Edit.Hulls

/-!
# Proofs/Edit/Arithmetic — the arithmetic of a plan never stops

Natural numbers do not go below zero and a slice off the boundaries is empty, so a plan always comes
to something.  Here it is computed once more with nothing to hide behind: a difference of offsets is
taken in the integers and has to be an offset (`Int.toNat?`), a slice has to exist (`Text.cut?`), and
a merge without a touched entry, or with a range out of bounds, has no outcome at all.  For a set in
use the two computations agree, wherever the edit goes.

* `EditSet.plan?_eq` — a plan comes to the same with every difference and every slice checked.
* `Desk.exists_mergesSafely` — the offsets of a set in use, and what merging an edit into it comes
  to.
-/

namespace ProbeWeaver

open Text Edit

variable {source : String} {i j p start stop first last : Nat} {g : Int} {d e t : Edit}
  {A B C : List Edit} {set : EditSet} {region : Region} {conflict : Conflict}

/-! ## Computing with checks -/

/-- A difference of offsets, when it is one. -/
def minus? (a b : Nat) : Option Nat := (a - b : Int).toNat?

/-- An offset moved by a gain, when it is still one. -/
def moved? (position : Nat) (growth : Int) : Option Nat := (position + growth).toNat?

/-- Where an offset goes. -/
def editedOffsetFrom? : Int → Nat → List Edit → Option Nat
  | growth, position, [] => moved? position growth
  | growth, position, e :: edits =>
    if e.stop ≤ position then editedOffsetFrom? (growth + e.growth) position edits
    else if e.offset < position ∧ e.offset + e.size ≤ position then
      if e.text.isEmpty then moved? (e.offset + e.size) growth
      else (minus? (e.offset + e.size) 1).bind fun last => moved? last growth
    else moved? position growth

/-- The entries placed in the edited text. -/
def placeFrom? : Int → List Edit → Option (List PlacedEdit)
  | _, [] => some []
  | growth, e :: edits => do
    let start ← moved? e.offset growth
    let placed ← placeFrom? (growth + e.growth) edits
    some (⟨e, start⟩ :: placed)

/-- The edited text of a range, when every gap is a slice of the source. -/
def editedBetween? (source : String) : Nat → List Edit → Nat → Option String
  | cursor, [], stop => cut? source cursor stop
  | cursor, e :: edits, stop => do
    let gap ← cut? source cursor e.offset
    let rest ← editedBetween? source e.stop edits stop
    some (gap ++ e.text ++ rest)

/-- The stretch around a group that is not empty, when its range lies in the source. -/
def regionOf? (source : String) (start stop : Nat) (group : List PlacedEdit) : Option Region := do
  let head ← group.head?
  let last ← group.getLast?
  let regionStart := min start head.start
  let regionStop := max stop last.stop
  let sourceStart ← minus? head.edit.offset (← minus? head.start regionStart)
  let sourceStop := last.edit.stop + (← minus? regionStop last.stop)
  (checkRange source sourceStart sourceStop).toOption
  let _size ← minus? regionStop regionStart
  let text ← editedBetween? source sourceStart (group.map (·.edit)) sourceStop
  some ⟨regionStart, sourceStart, sourceStop, text⟩

namespace EditSet

/-- Where a source offset stands in the edited text. -/
def editedOffset? (set : EditSet) (position : Nat) : Option Nat :=
  editedOffsetFrom? 0 position set.entries

/-- Folding an edit into what it touches. -/
def foldInto? (set : EditSet) (source : String) (start : Nat) (e : Edit) :
    Option (Except Conflict Plan) := do
  let placed ← placeFrom? 0 set.entries
  let first := (placed.takeWhile (·.stop < start)).length
  let group := (placed.drop first).takeWhile (·.start ≤ start + e.length)
  let region ← regionOf? source start (start + e.length) group
  let lo ← minus? start region.start
  let hi := lo + e.length
  if IsBoundary region.text lo ∧ IsBoundary region.text hi then
    let front ← cut? region.text 0 lo
    let back ← cut? region.text hi region.text.utf8ByteSize
    let length ← minus? region.sourceStop region.sourceStart
    some (.ok (.merged first (first + group.length)
      ⟨region.sourceStart, length, front ++ e.text ++ back⟩ set.revision))
  else some (.error (.splitsCharacter e.offset))

/-- **A plan with checks**: none where a difference is negative, a slice does not exist, or a merge
has no entry to go into or no range in the source. -/
def plan? (set : EditSet) (source : String) (e : Edit) : Option (Except Conflict Plan) :=
  match checkRange source e.offset e.stop with
  | .error conflict => some (.error conflict)
  | .ok () =>
    if set.meets e then do
      let start ← set.editedOffset? e.offset
      let shifted ← minus? (← set.editedOffset? e.stop) start
      if shifted = e.length then set.foldInto? source start e
      else some (.error (.irreconcilable e.offset e.length shifted))
    else some (.ok (.direct (set.entries.takeWhile (·.precedes e)).length e set.revision))

end EditSet

/-! ## The checks hold -/

theorem minus?_eq (h : j ≤ i) : minus? i j = some (i - j) :=
  Int.mem_toNat?.mpr (Int.natCast_sub h).symm

theorem moved?_eq (h : 0 ≤ p + g) : moved? p g = some (p + g).toNat :=
  Int.mem_toNat?.mpr (Int.toNat_of_nonneg h).symm

theorem cut?_eq_slice (hi : IsBoundary source i) (hj : IsBoundary source j) (hij : i ≤ j) :
    cut? source i j = some (slice source i j) := by
  obtain ⟨t, ht⟩ := Option.isSome_iff_exists.mp (isSome_cut?.mpr ⟨hi, hj, hij⟩)
  rw [slice, ht]
  rfl

/-- **No sum on the way of an offset is negative.** -/
theorem editedOffsetFrom?_eq : ∀ {g : Int} {i : Nat} {l : List Edit}, Between i l j → 0 ≤ i + g →
    i ≤ p → editedOffsetFrom? g p l = some (editedOffsetFrom g p l)
  | g, i, [], _, hg, hp => moved?_eq (by omega)
  | g, i, e :: l, hl, hg, hp => by
      have hie := hl.1
      have hes := e.stop_eq
      have hgrow : (e.stop : Int) + (g + e.growth) = e.offset + g + e.size := by
        rw [growth]
        omega
      rw [editedOffsetFrom?, editedOffsetFrom]
      split
      · next hstop => exact editedOffsetFrom?_eq hl.2 (by omega) hstop
      · split
        · split
          · next hempty =>
            rw [String.isEmpty_iff_utf8ByteSize_eq_zero, ← size] at hempty
            rw [hempty]
            exact moved?_eq (by omega)
          · next hempty =>
            have := size_pos_of_not_isEmpty hempty
            rw [minus?_eq (by omega), Option.bind_some]
            exact moved?_eq (by omega)
        · exact moved?_eq (by omega)

/-- **No place of an entry is negative.** -/
theorem placeFrom?_eq : ∀ {g : Int} {i : Nat} {l : List Edit}, Between i l j → 0 ≤ i + g →
    placeFrom? g l = some (placeFrom g l)
  | _, _, [], _, _ => rfl
  | g, i, e :: l, hl, hg => by
      have hie := hl.1
      have hes := e.stop_eq
      have hrest : placeFrom? (g + e.growth) l = some (placeFrom (g + e.growth) l) :=
        placeFrom?_eq hl.2 (by rw [growth]; omega)
      rw [placeFrom?, moved?_eq (by omega), hrest]
      rfl

/-- **Every gap between the entries of a range is a slice of the source.** -/
theorem editedBetween?_eq : ∀ {i : Nat} {l : List Edit}, IsBoundary source i →
    IsBoundary source j → (∀ e ∈ l, OnBoundaries source e) → Between i l j →
      editedBetween? source i l j = some (editedBetween source i l j)
  | _, [], hi, hj, _, hl => cut?_eq_slice hi hj hl
  | i, e :: l, hi, hj, hb, hl => by
      obtain ⟨hstart, hstop⟩ := hb e List.mem_cons_self
      have hrest := editedBetween?_eq hstop hj (fun d hd => hb d (List.mem_cons_of_mem e hd)) hl.2
      rw [editedBetween?, cut?_eq_slice hi hstart hl.1, hrest]
      rfl

/-- A region comes out with checks as well, when its start is not in front of the source. -/
theorem regionOf?_eq_some {group : List PlacedEdit} (hhead : group.head? = some ⟨d, first⟩)
    (hlast : group.getLast? = some ⟨t, last⟩) (hle : start ≤ stop)
    (hregion : set.regionOf source start stop group = .ok region)
    (hfront : first - region.start ≤ d.offset) (hrange : region.sourceStart ≤ region.sourceStop)
    (htext : editedBetween? source region.sourceStart (group.map PlacedEdit.edit)
      region.sourceStop = some region.text) :
    regionOf? source start stop group = some region := by
  obtain ⟨hstart, hstop, hregionStart, hsourceStart, hsourceStop, -⟩ :=
    regionOf_inv hhead hlast hregion
  have hcheck : checkRange source region.sourceStart region.sourceStop = .ok () :=
    checkRange_eq_ok_iff.mpr ⟨hrange, hstart, hstop⟩
  have hahead : minus? first region.start = some (first - region.start) :=
    minus?_eq (hregionStart ▸ Nat.min_le_right ..)
  have hsize : minus? (max stop (last + t.size)) region.start =
      some (max stop (last + t.size) - region.start) := minus?_eq (by omega)
  rw [regionOf?, hhead, hlast]
  simp only [Option.bind_eq_bind, Option.bind_some, PlacedEdit.stop, ← hregionStart, hahead,
    minus?_eq hfront, ← hsourceStart, minus?_eq (Nat.le_max_right stop (last + t.size)),
    ← hsourceStop, hcheck, hsize, htext]
  rfl

namespace EditSet

/-- **The region of a merge comes out with checks.** -/
theorem Parts.exists_region?
    (hparts : set.Parts (set.editedOffset e.offset) (set.editedOffset e.stop) A B C)
    (h : Fits source set.entries) (he : OnBoundaries source e) :
    ∃ region, set.regionOf source (set.editedOffset e.offset) (set.editedOffset e.stop)
        (placeFrom (totalGrowth A) B) = .ok region ∧
      regionOf? source (set.editedOffset e.offset) (set.editedOffset e.stop)
        (placeFrom (totalGrowth A) B) = some region ∧
      region.sourceStart ≤ region.sourceStop ∧ region.start ≤ set.editedOffset e.offset := by
  obtain ⟨region, hregion, -, hcovers, hstart, -⟩ := hparts.exists_region h he
  obtain ⟨d, B₁, hhead⟩ : ∃ d B₁, B = d :: B₁ := List.exists_cons_of_ne_nil hparts.ne_nil
  obtain ⟨B₀, t, hlast⟩ : ∃ B₀ t, B = B₀ ++ [t] :=
    ⟨_, _, (List.dropLast_concat_getLast hparts.ne_nil).symm⟩
  have hfits := hparts.fits h
  obtain ⟨first, hfirst, hfirstEq⟩ := exists_head?_placeFrom hfits.between hhead
  obtain ⟨last, hend, -⟩ := exists_getLast?_placeFrom hfits.between hlast
  obtain ⟨-, -, -, hsourceStart, -, -⟩ := regionOf_inv hfirst hend hregion
  have hstartEq := hcovers.start_eq
  refine ⟨region, hregion, regionOf?_eq_some hfirst hend
    (editedOffset_mono h e.offset_le_stop) hregion (by omega) hcovers.group.le ?_,
    hcovers.group.le, hstart⟩
  rw [map_edit_placeFrom, hcovers.text_eq]
  exact editedBetween?_eq hcovers.start_boundary hcovers.stop_boundary
    (fun b hb => hfits.onBoundaries b (List.mem_append_right A (List.mem_append_left C hb)))
    hcovers.group

/-- **Folding comes to the same with checks.** -/
theorem foldInto?_eq (h : Fits source set.entries) (he : OnBoundaries source e)
    (hmeets : set.meets e = true)
    (hkeeps : set.editedOffset e.stop = set.editedOffset e.offset + e.length) :
    set.foldInto? source (set.editedOffset e.offset) e =
      some (set.foldInto source (set.editedOffset e.offset) e) := by
  obtain ⟨A, B, C, hparts⟩ := exists_parts_of_meets h hmeets
  obtain ⟨region, hregion, hregion?, hrange, hstart⟩ := hparts.exists_region? h he
  rw [hkeeps] at hparts hregion hregion?
  rw [hparts.foldInto_eq, hregion, foldInto?, placeFrom?_eq h.between (Int.le_refl 0)]
  simp only [Option.bind_eq_bind, Option.bind_some, hparts.front_eq, length_placeFrom,
    hparts.group_eq, hregion?, minus?_eq hstart]
  split
  · next hboundary =>
    rw [cut?_eq_slice (isBoundary_zero _) hboundary.1 (Nat.zero_le _),
      cut?_eq_slice hboundary.2 (isBoundary_size _) hboundary.2.le_size, minus?_eq hrange]
    exact congrArg some (if_pos hboundary).symm
  · next hboundary => exact congrArg some (if_neg hboundary).symm

/-- **Offsets come to the same with checks.** -/
theorem editedOffset?_eq (h : Fits source set.entries) (p : Nat) :
    set.editedOffset? p = some (set.editedOffset p) :=
  editedOffsetFrom?_eq h.between (Int.le_refl 0) (Nat.zero_le p)

/-- **A plan comes to the same with checks**: no difference is negative, every slice exists, and a
merge has entries to go into and a range in the source. -/
theorem plan?_eq (h : Fits source set.entries) (e : Edit) :
    set.plan? source e = some (set.plan source e) := by
  rw [plan?]
  split
  · next conflict hrange =>
    rw [plan, hrange]
    rfl
  · next hrange =>
    have he : OnBoundaries source e := (checkRange_eq_ok_iff.mp hrange).2
    split
    · next hmeets =>
      have hmono := editedOffset_mono h e.offset_le_stop
      rw [plan_of_meets he hmeets, editedOffset?_eq h, editedOffset?_eq h]
      simp only [Option.bind_eq_bind, Option.bind_some, minus?_eq hmono]
      split
      · next hkeeps => exact foldInto?_eq h he hmeets (by omega)
      · rfl
    · next hmeets => rw [plan_of_not_meets he (Bool.eq_false_iff.mpr hmeets)]

/-! ## Merging -/

/-- **`e` can be merged into the set without harm**, `edited` being the edited text.  Offsets keep
their order there (`monotone`), by sums that are never negative (`moved`), and do not pass its end
(`within`).  A plan comes to the same with every difference and every slice checked (`planned`).  An
edit that is merged touches an entry, and the entries it touches give way to one over the hull of
them and of the edit, unless an end of the edit splits a character of the edited text (`merged`).
Nothing else is refused but an edit that changes size on the way (`refused`). -/
structure MergesSafely (set : EditSet) (source edited : String) (e : Edit) : Prop where
  monotone : MonotoneOn set.editedOffset (Set.Iic source.utf8ByteSize)
  moved : ∀ p ≤ source.utf8ByteSize, set.editedOffset? p = some (set.editedOffset p)
  within : ∀ p ≤ source.utf8ByteSize, set.editedOffset p ≤ edited.utf8ByteSize
  planned : set.plan? source e = some (set.plan source e)
  merged : set.meets e = true → set.editedOffset e.stop - set.editedOffset e.offset = e.length →
    ∃ A B C combined, set.entries = A ++ (B ++ C) ∧ B ≠ [] ∧
      placeFrom (totalGrowth A) B =
        set.touched (set.editedOffset e.offset) (set.editedOffset e.stop) ∧
      IsHull combined.offset combined.stop B e ∧
      set.plan source e =
        if IsBoundary edited (set.editedOffset e.offset) ∧
            IsBoundary edited (set.editedOffset e.stop) then
          .ok (.merged A.length (A.length + B.length) combined set.revision)
        else .error (.splitsCharacter e.offset)
  refused : ∀ conflict, set.plan source e = .error conflict →
    set.editedOffset e.stop - set.editedOffset e.offset ≠ e.length ∧
        conflict = .irreconcilable e.offset e.length
          (set.editedOffset e.stop - set.editedOffset e.offset) ∨
      set.editedOffset e.stop - set.editedOffset e.offset = e.length ∧
        conflict = .splitsCharacter e.offset

/-- What the plan of an edit that keeps its size comes to. -/
theorem plan_eq_foldInto (he : OnBoundaries source e) (hmeets : set.meets e = true)
    (hkeeps : set.editedOffset e.stop - set.editedOffset e.offset = e.length) :
    set.plan source e = set.foldInto source (set.editedOffset e.offset) e := by
  rw [plan_of_meets he hmeets, if_pos hkeeps]

/-- No offset of the source goes past the end of the edited text. -/
theorem editedOffset_le (h : Fits source set.entries) (hp : p ≤ source.utf8ByteSize) :
    set.editedOffset p ≤
      (editedBetween source 0 set.entries source.utf8ByteSize).utf8ByteSize := by
  have hend := editedOffsetFrom_le h.between hp
  rw [← size_applyAll h] at hend
  exact_mod_cast hend

/-- **Why an edit on boundaries is refused**: it changes size on the way, or one of its ends splits
a character of the edited text. -/
theorem conflict_of_plan_eq_error (h : Fits source set.entries) (he : OnBoundaries source e)
    (hplan : set.plan source e = .error conflict) :
    set.editedOffset e.stop - set.editedOffset e.offset ≠ e.length ∧
        conflict = .irreconcilable e.offset e.length
          (set.editedOffset e.stop - set.editedOffset e.offset) ∨
      set.editedOffset e.stop - set.editedOffset e.offset = e.length ∧
        conflict = .splitsCharacter e.offset := by
  have hmono := editedOffset_mono h e.offset_le_stop
  by_cases hmeets : set.meets e = true
  · by_cases hkeeps : set.editedOffset e.stop - set.editedOffset e.offset = e.length
    · obtain ⟨A, B, C, combined, -, -, hfold⟩ := exists_merge h he hmeets (by omega)
      rw [plan_eq_foldInto he hmeets hkeeps, hfold] at hplan
      split at hplan
      · contradiction
      · exact .inr ⟨hkeeps, (Except.error.inj hplan).symm⟩
    · rw [plan_of_meets he hmeets, if_neg hkeeps] at hplan
      exact .inl ⟨hkeeps, (Except.error.inj hplan).symm⟩
  · rw [plan_of_not_meets he (Bool.eq_false_iff.mpr hmeets)] at hplan
    contradiction

/-- **Any edit on boundaries can be merged without harm** into entries that fit the text. -/
theorem mergesSafely (h : Fits source set.entries) (he : OnBoundaries source e) :
    set.MergesSafely source (editedBetween source 0 set.entries source.utf8ByteSize) e where
  monotone _ _ _ _ hpq := editedOffset_mono h hpq
  moved p _ := editedOffset?_eq h p
  within _ hp := editedOffset_le h hp
  planned := plan?_eq h e
  merged hmeets hkeeps := by
    have hmono := editedOffset_mono h e.offset_le_stop
    obtain ⟨A, B, C, combined, hparts, hhull, hfold⟩ := exists_merge h he hmeets (by omega)
    exact ⟨A, B, C, combined, hparts.entries_eq, hparts.ne_nil, hparts.touched_eq, hhull,
      (plan_eq_foldInto he hmeets hkeeps).trans hfold⟩
  refused _ hconflict := conflict_of_plan_eq_error h he hconflict

end EditSet

namespace Desk

/-- **Merging into a set in use is safe.**  Whatever was added, planned and committed before, the
set can be carried out, and any edit that lies in the text and on its boundaries can be merged into
it without harm. -/
theorem exists_mergesSafely (source : String) (actions : List Action) {e : Edit}
    (he : OnBoundaries source e) :
    ∃ edited, (run source actions).set.apply source = .ok edited ∧
      (run source actions).set.MergesSafely source edited e :=
  have h := (sound_run source actions).fits
  ⟨_, applyAll_eq_ok h, EditSet.mergesSafely h he⟩

/-- A replacement from in front of one entry to the edge of a deletion: it merges with both. -/
theorem exists_mergesSafely_between :
    OnBoundaries "añb" ⟨0, 3, "z"⟩ ∧
      (run "añb" [.add ⟨1, 2, "é"⟩, .add ⟨3, 1, ""⟩]).set.plan? "añb" ⟨0, 3, "z"⟩ =
        some (.ok (.merged 0 2 ⟨0, 4, "z"⟩ 2)) := by
  have he : OnBoundaries "añb" ⟨0, 3, "z"⟩ := by decide +kernel
  obtain ⟨edited, -, hsafe⟩ :=
    exists_mergesSafely "añb" [.add ⟨1, 2, "é"⟩, .add ⟨3, 1, ""⟩] he
  exact ⟨he, hsafe.planned.trans (by decide +kernel)⟩

end Desk

end ProbeWeaver
