import ProbeWeaver.Text.Middle

/-!
# Text/LineDiff — the lines that change from one text to another

Two texts are compared line by line in three steps:

* `changes` splits both at a point in the middle of a shortest way and compares the halves;
* `gather` moves the runs of one text's own lines, so that runs that can stand together do;
* `settle` puts the lines of the old text before those of the new one, between lines that stay.
-/

namespace ProbeWeaver.Text

/-- Lines with their ends: a line feed, a carriage return, or a carriage return and a line feed.
`line` holds the characters of the current line, last to first. -/
def linesFrom (line : List Char) : List Char → List String
  | [] => if line.isEmpty then [] else [String.ofList line.reverse]
  | '\r' :: '\n' :: cs => String.ofList ('\n' :: '\r' :: line).reverse :: linesFrom [] cs
  | c :: cs =>
    if c = '\n' ∨ c = '\r' then String.ofList (c :: line).reverse :: linesFrom [] cs
    else linesFrom (c :: line) cs

/-- **The lines of a text.** -/
def lines (s : String) : List String := linesFrom [] s.toList

/-- The line has an end. -/
def endsLine (line : String) : Bool :=
  match line.toList.getLast? with
  | some c => c == '\n' || c == '\r'
  | none => false

namespace LineDiff

/-- One of the two texts. -/
inductive Side where
  | old
  | new
  deriving DecidableEq, Repr

/-- What becomes of lines: one stays, or a run of them stands in one text only. -/
inductive Change where
  | keep (line : String)
  | only (side : Side) (lines : List String)
  deriving DecidableEq, Repr

/-- The lines a change has in a text. -/
def Change.linesOf (side : Side) : Change → List String
  | .keep line => [line]
  | .only s lines => if s = side then lines else []

/-! ## The halves of a shortest way -/

/-- The lines two lists have in common at their start. -/
def sharedStart : (old new : List String) → List String
  | a :: as, b :: bs => if a = b then a :: sharedStart as bs else []
  | _, _ => []

/-- Two lists of lines without what they share at both ends. -/
structure Trimmed where
  start : List String
  old : List String
  new : List String
  finish : List String
  deriving DecidableEq, Repr

/-- **What two lists share at both ends**, at the start first. -/
def trim (old new : List String) : Trimmed :=
  let start := sharedStart old new
  let old := old.drop start.length
  let new := new.drop start.length
  let finish := (sharedStart old.reverse new.reverse).reverse
  { start, old := old.take (old.length - finish.length),
    new := new.take (new.length - finish.length), finish }

theorem length_trim_old_le (old new : List String) : (trim old new).old.length ≤ old.length := by
  simp only [trim, List.length_take, List.length_drop]
  omega

theorem length_trim_new_le (old new : List String) : (trim old new).new.length ≤ new.length := by
  simp only [trim, List.length_take, List.length_drop]
  omega

/-- The point `(x, y)` splits both lists, and not both at the same end. -/
def Splits (old new : List String) (x y : Nat) : Prop :=
  x ≤ old.length ∧ y ≤ new.length ∧ 0 < x + y ∧ x + y < old.length + new.length

instance (old new : List String) (x y : Nat) : Decidable (Splits old new x y) :=
  inferInstanceAs (Decidable (_ ∧ _ ∧ _ ∧ _))

theorem length_take_add_lt {old new : List String} {x y : Nat}
    (h : Splits (trim old new).old (trim old new).new x y) :
    ((trim old new).old.take x).length + ((trim old new).new.take y).length <
      old.length + new.length := by
  have := length_trim_old_le old new
  have := length_trim_new_le old new
  simp only [Splits, List.length_take] at *
  omega

theorem length_drop_add_lt {old new : List String} {x y : Nat}
    (h : Splits (trim old new).old (trim old new).new x y) :
    ((trim old new).old.drop x).length + ((trim old new).new.drop y).length <
      old.length + new.length := by
  have := length_trim_old_le old new
  have := length_trim_new_le old new
  simp only [Splits, List.length_drop] at *
  omega

/-- A run of lines in one text; no lines are no change. -/
def run (side : Side) (lines : List String) : List Change :=
  if lines.isEmpty then [] else [.only side lines]

/-- **The changes from one list of lines to another**, on a shortest way. -/
def changes (old new : List String) : List Change :=
  let trimmed := trim old new
  let rest :=
    if trimmed.old.isEmpty || trimmed.new.isEmpty then
      run .old trimmed.old ++ run .new trimmed.new
    else
      match middle? trimmed.old trimmed.new with
      | none => run .old trimmed.old ++ run .new trimmed.new
      | some (x, y) =>
        if Splits trimmed.old trimmed.new x y then
          changes (trimmed.old.take x) (trimmed.new.take y) ++
            changes (trimmed.old.drop x) (trimmed.new.drop y)
        else run .old trimmed.old ++ run .new trimmed.new
  trimmed.start.map .keep ++ rest ++ trimmed.finish.map .keep
termination_by old.length + new.length
decreasing_by
  · exact length_take_add_lt (by assumption)
  · exact length_drop_add_lt (by assumption)

/-! ## Runs that stand together

A run that is taken up moves over the changes above it and then over those below it.  It takes in
the runs of its own side and passes those of the other.  Lines of the new text pass a line that
stays when they end in it, or start with it: the line that stays then is the other one. -/

/-- A run and the changes around it, the nearest first. -/
structure Held where
  above : List Change
  lines : List String
  below : List Change
  deriving DecidableEq, Repr

/-- The run as far up as it gets. -/
def moveUp (side : Side) (lines : List String) : (above below : List Change) → Held
  | [], below => ⟨[], lines, below⟩
  | .only s others :: above, below =>
    if s = side then moveUp side (others ++ lines) above below
    else moveUp side lines above (.only s others :: below)
  | .keep line :: above, below =>
    if side = .new ∧ lines.getLast? = some line then
      moveUp side (line :: lines.dropLast) above (.keep line :: below)
    else ⟨.keep line :: above, lines, below⟩

/-- The run as far down as it gets. -/
def moveDown (side : Side) (lines : List String) : (above below : List Change) → Held
  | above, [] => ⟨above, lines, []⟩
  | above, .only s others :: below =>
    if s = side then moveDown side (lines ++ others) above below
    else moveDown side lines (.only s others :: above) below
  | above, .keep line :: below =>
    if side = .new ∧ lines.head? = some line then
      moveDown side (lines.drop 1 ++ [line]) (.keep line :: above) below
    else ⟨above, lines, .keep line :: below⟩

/-- The next run of a side. -/
def nextRun? (side : Side) : (above below : List Change) → Option Held
  | _, [] => none
  | above, .only s lines :: below =>
    if s = side then some ⟨above, lines, below⟩
    else nextRun? side (.only s lines :: above) below
  | above, change :: below => nextRun? side (change :: above) below

/-- The runs of a side moved one after the other, those in `below` being left.  Moving a run leaves
no run of its side behind, so as many rounds as there are runs at the beginning do. -/
def gatherFrom (side : Side) : (rounds : Nat) → (above below : List Change) → List Change
  | 0, above, below => above.reverse ++ below
  | rounds + 1, above, below =>
    match nextRun? side above below with
    | none => above.reverse ++ below
    | some held =>
      let up := moveUp side held.lines held.above held.below
      let down := moveDown side up.lines up.above up.below
      gatherFrom side rounds (.only side down.lines :: down.above) down.below

/-- **The runs of a side together** where they can be. -/
def gather (side : Side) (changes : List Change) : List Change :=
  gatherFrom side changes.length [] changes

/-! ## The comparison -/

/-- Lines of the old text before lines of the new one, between lines that stay; `old` and `new` are
those since the last line that stays. -/
def settleFrom (old new : List String) : List Change → List Change
  | [] => run .old old ++ run .new new
  | .keep line :: changes => run .old old ++ run .new new ++ .keep line :: settleFrom [] [] changes
  | .only .old lines :: changes => settleFrom (old ++ lines) new changes
  | .only .new lines :: changes => settleFrom old (new ++ lines) changes

/-- **Lines of the old text before lines of the new one.** -/
def settle (changes : List Change) : List Change := settleFrom [] [] changes

/-- **The changes from one text to another.** -/
def compare (old new : String) : List Change :=
  settle (gather .new (gather .old (changes (lines old) (lines new))))

/-- The lines of a change, each with a sign before it. -/
def Change.render : Change → String
  | .keep line => shown " " line
  | .only .old lines => String.join (lines.map (shown "-"))
  | .only .new lines => String.join (lines.map (shown "+"))
where
  shown (sign line : String) : String := sign ++ line ++ (if endsLine line then "" else "\n")

/-- **The comparison of two texts**, every line of both. -/
def render (old new : String) : String := String.join ((compare old new).map (·.render))

end LineDiff

end ProbeWeaver.Text
