import ProbeWeaver.Text.Cut

/-!
# Edit/Basic — replacing byte ranges of a text

An `Edit` puts new text in the place of a byte range; an insertion is an edit of an empty range.
`Edit.applyAll` carries out an ordered list in one walk over the text.

* `EditFault` — what can be wrong with a list: a range past the end, disorder or overlap, and a
  split character, each reported for the first edit that has it and in this order of precedence.
-/

namespace ProbeWeaver

/-- **An edit**: the bytes `[offset, offset + length)` give way to `text`. -/
structure Edit where
  offset : Nat
  length : Nat
  text : String
  deriving DecidableEq, Repr

namespace Edit

/-- An edit that removes nothing. -/
def insertion (offset : Nat) (text : String) : Edit := ⟨offset, 0, text⟩

/-- The first byte after the replaced range. -/
def stop (e : Edit) : Nat := e.offset + e.length

/-- Bytes of the new text. -/
def size (e : Edit) : Nat := e.text.utf8ByteSize

/-- Nothing is removed. -/
def isInsertion (e : Edit) : Bool := e.length == 0

/-- Bytes gained or lost. -/
def growth (e : Edit) : Int := (e.size : Int) - e.length

/-- **Two edits claim the same place.**  Insertions claim one offset, and an insertion meets a
replacement only strictly inside its range. -/
def overlaps (a b : Edit) : Bool :=
  match a.isInsertion, b.isInsertion with
  | true, true => a.offset == b.offset
  | true, false => b.offset < a.offset && a.offset < b.stop
  | false, true => a.offset < b.offset && b.offset < a.stop
  | false, false => a.offset < b.stop && b.offset < a.stop

/-- The order of edits in a list: by offset, an insertion before a replacement. -/
def precedes (a b : Edit) : Bool :=
  a.offset < b.offset || (a.offset == b.offset && a.isInsertion && !b.isInsertion)

end Edit

/-- Why a list of edits cannot be carried out. -/
inductive EditFault where
  | outOfRange (start stop size : Nat)
  | unordered (offset : Nat)
  | splitsCharacter
  deriving DecidableEq, Repr

/-- The wording of an edit error. -/
def EditFault.message : EditFault → String
  | .outOfRange start stop size =>
    "Invalid byte range: [" ++ toString start ++ ", " ++ toString stop ++ ") in file of length " ++
      toString size
  | .unordered offset =>
    "Replacements out of order or overlapping at offset " ++ toString offset
  | .splitsCharacter => "Invalid edit would create malformed UTF-8"

namespace Edit

/-- The fault of an edit that follows a replaced range ending at `cursor`. -/
def fault? (source : String) (cursor : Nat) (e : Edit) : Option EditFault :=
  if source.utf8ByteSize < e.stop then
    some (.outOfRange e.offset e.stop source.utf8ByteSize)
  else if e.offset < cursor then some (.unordered e.offset)
  else if Text.IsBoundary source e.offset ∧ Text.IsBoundary source e.stop then none
  else some .splitsCharacter

/-- The text from `cursor` on with `edits` carried out. -/
def applyFrom (source : String) : Nat → List Edit → Except EditFault String
  | cursor, [] => .ok (Text.sliceFrom source cursor)
  | cursor, e :: edits =>
    match e.fault? source cursor with
    | some fault => .error fault
    | none =>
      match applyFrom source e.stop edits with
      | .ok rest => .ok (Text.slice source cursor e.offset ++ e.text ++ rest)
      | .error fault => .error fault

/-- **The edited text**: untouched gaps and new texts in turn. -/
def applyAll (source : String) (edits : List Edit) : Except EditFault String :=
  applyFrom source 0 edits

end Edit

end ProbeWeaver
