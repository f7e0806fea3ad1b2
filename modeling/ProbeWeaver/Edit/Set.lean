import ProbeWeaver.Edit.Basic
import ProbeWeaver.Text.Search

/-!
# Edit/Set — edits that compose

An `EditSet` collects edits of one text, all addressed in that text.  An edit that meets an accepted
one is carried through the edited text and folded into it, so insertions at one offset line up in
the order of arrival.  An edit whose range changes size on the way is a conflict.

Adding takes two steps: `EditSet.plan` says where an edit goes and changes nothing, and
`EditSet.carryOut` carries a plan out, as long as the set is still the one that was planned for.
-/

namespace ProbeWeaver

/-- Why an edit is refused. -/
inductive Conflict where
  | irreconcilable (offset length shiftedLength : Nat)
  | outOfBounds (offset stop size : Nat)
  | splitsCharacter (offset : Nat)
  | stalePlan
  deriving DecidableEq, Repr

/-- The wording of a conflict. -/
def Conflict.message : Conflict → String
  | .irreconcilable offset length shifted =>
    "replacement at " ++ toString offset ++ " (length " ++ toString length ++
      ") shifts to length " ++ toString shifted ++ "; edits overlap irreconcilably"
  | .outOfBounds offset stop size =>
    "replacement [" ++ toString offset ++ ", " ++ toString stop ++ ") exceeds source length " ++
      toString size
  | .splitsCharacter offset =>
    "replacement boundary at byte " ++ toString offset ++ " splits a UTF-8 character"
  | .stalePlan => "staged replacement was planned against an older state of the set"

/-- **Accepted edits**, ordered and apart from each other, with a count of the changes so far. -/
structure EditSet where
  entries : List Edit := []
  revision : Nat := 0
  deriving DecidableEq, Repr

/-- **A planned edit**: a new entry at an index, or one that takes the place of a group of
entries. -/
inductive Plan where
  | direct (index : Nat) (edit : Edit) (revision : Nat)
  | merged (first last : Nat) (combined : Edit) (revision : Nat)
  deriving DecidableEq, Repr

/-- The state of the set that a plan was made for. -/
def Plan.revision : Plan → Nat
  | .direct _ _ revision => revision
  | .merged _ _ _ revision => revision

/-- A range within the text that starts and ends between characters. -/
def checkRange (source : String) (start stop : Nat) : Except Conflict Unit :=
  if stop < start ∨ source.utf8ByteSize < stop then
    .error (.outOfBounds start stop source.utf8ByteSize)
  else if ¬ Text.IsBoundary source start then .error (.splitsCharacter start)
  else if ¬ Text.IsBoundary source stop then .error (.splitsCharacter stop)
  else .ok ()

/-- An entry together with where its text starts in the edited text. -/
structure PlacedEdit where
  edit : Edit
  start : Nat
  deriving DecidableEq, Repr

/-- The end of the entry's text in the edited text. -/
def PlacedEdit.stop (p : PlacedEdit) : Nat := p.start + p.edit.size

/-- The entries placed in the edited text, `growth` bytes gained before them. -/
def placeFrom : Int → List Edit → List PlacedEdit
  | _, [] => []
  | growth, e :: edits => ⟨e, (e.offset + growth).toNat⟩ :: placeFrom (growth + e.growth) edits

/-- Where offset `position` of the text goes when `edits` follow a gain of `growth` bytes.  An
offset inside a replaced range goes to the last byte of the new text. -/
def editedOffsetFrom : Int → Nat → List Edit → Nat
  | growth, position, [] => (position + growth).toNat
  | growth, position, e :: edits =>
    if e.stop ≤ position then editedOffsetFrom (growth + e.growth) position edits
    else if e.offset < position ∧ e.offset + e.size ≤ position then
      ((if e.text.isEmpty then e.offset else e.offset + e.size - 1 : Nat) + growth).toNat
    else (position + growth).toNat

/-- The edited text between two source offsets, `edits` lying between them. -/
def editedBetween (source : String) : Nat → List Edit → Nat → String
  | cursor, [], stop => Text.slice source cursor stop
  | cursor, e :: edits, stop =>
    Text.slice source cursor e.offset ++ e.text ++ editedBetween source e.stop edits stop

/-- A stretch of the edited text that starts at `start` there and stands for the source range
`[sourceStart, sourceStop)`. -/
structure Region where
  start : Nat
  sourceStart : Nat
  sourceStop : Nat
  text : String

namespace EditSet

/-- Number of entries. -/
def length (set : EditSet) : Nat := set.entries.length

/-- No entry. -/
def isEmpty (set : EditSet) : Bool := set.entries.isEmpty

/-- The entries around the range of a new edit: from the first that does not end before it to the
last that does not start behind it. -/
def around (set : EditSet) (e : Edit) : List Edit :=
  (set.entries.dropWhile (·.stop < e.offset)).takeWhile (·.offset ≤ e.stop)

/-- The new edit claims the place of an entry. -/
def meets (set : EditSet) (e : Edit) : Bool := (set.around e).any (·.overlaps e)

/-- **Where a source offset stands in the edited text.** -/
def editedOffset (set : EditSet) (position : Nat) : Nat := editedOffsetFrom 0 position set.entries

/-- The smallest stretch that covers `[start, stop)` of the edited text and every entry of
`group`, which is what that range touches. -/
def regionOf (set : EditSet) (source : String) (start stop : Nat) (group : List PlacedEdit) :
    Except Conflict Region :=
  match group.head?, group.getLast? with
  | some head, some last => do
    let regionStart := min start head.start
    let regionStop := max stop last.stop
    let sourceStart := head.edit.offset - (head.start - regionStart)
    let sourceStop := last.edit.stop + (regionStop - last.stop)
    checkRange source sourceStart sourceStop
    .ok ⟨regionStart, sourceStart, sourceStop,
      editedBetween source sourceStart (group.map (·.edit)) sourceStop⟩
  | _, _ =>
    let before := (placeFrom 0 set.entries).takeWhile (·.stop < start)
    let gained : Int := before.foldl (fun gained p => gained + p.edit.growth) 0
    let sourceStart := (start - gained).toNat
    .ok ⟨start, sourceStart, sourceStart + (stop - start),
      Text.slice source sourceStart (sourceStart + (stop - start))⟩

/-- The plan that puts `e` at `start` of the edited text and folds every entry it touches there
into one. -/
def foldInto (set : EditSet) (source : String) (start : Nat) (e : Edit) : Except Conflict Plan := do
  let placed := placeFrom 0 set.entries
  let first := (placed.takeWhile (·.stop < start)).length
  let group := (placed.drop first).takeWhile (·.start ≤ start + e.length)
  let region ← set.regionOf source start (start + e.length) group
  let lo := start - region.start
  let hi := lo + e.length
  if Text.IsBoundary region.text lo ∧ Text.IsBoundary region.text hi then
    .ok (.merged first (first + group.length)
      ⟨region.sourceStart, region.sourceStop - region.sourceStart,
        Text.slice region.text 0 lo ++ e.text ++ Text.sliceFrom region.text hi⟩
      set.revision)
  else .error (.splitsCharacter e.offset)

/-- **Where an edit goes.**  An edit that meets no entry goes in by its order; any other is merged,
provided its range keeps its size in the edited text. -/
def plan (set : EditSet) (source : String) (e : Edit) : Except Conflict Plan := do
  checkRange source e.offset e.stop
  if set.meets e then
    let start := set.editedOffset e.offset
    let shifted := set.editedOffset e.stop - start
    if shifted = e.length then set.foldInto source start e
    else .error (.irreconcilable e.offset e.length shifted)
  else
    .ok (.direct (set.entries.takeWhile (·.precedes e)).length e set.revision)

/-- The entries after a plan is carried out. -/
def entriesAfter (set : EditSet) : Plan → List Edit
  | .direct index e _ => set.entries.take index ++ e :: set.entries.drop index
  | .merged first last combined _ =>
    set.entries.take first ++ combined :: set.entries.drop last

/-- **Carries a plan out**, unless the set has changed since it was made. -/
def carryOut (set : EditSet) (plan : Plan) : Except Conflict EditSet :=
  if plan.revision = set.revision then
    .ok ⟨set.entriesAfter plan, set.revision + 1⟩
  else .error .stalePlan

/-- Plans and commits. -/
def add (set : EditSet) (source : String) (e : Edit) : Except Conflict EditSet := do
  set.carryOut (← set.plan source e)

/-- The edited text. -/
def apply (set : EditSet) (source : String) : Except EditFault String :=
  Edit.applyAll source set.entries

/-- Some entry that touches the source range `[start, stop]` has a text with `needle` in it. -/
def insertsWithin (set : EditSet) (start stop : Nat) (needle : String) : Bool :=
  set.entries.any fun e => e.offset ≤ stop && start ≤ e.stop && Text.contains e.text needle

/-- Some entry has a text with `needle` in it. -/
def insertsAnywhere (set : EditSet) (needle : String) : Bool :=
  set.entries.any fun e => Text.contains e.text needle

end EditSet

end ProbeWeaver
