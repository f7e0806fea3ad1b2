import ProbeWeaver.Edit.Set
import ProbeWeaver.Marker.Numbering
import ProbeWeaver.SourceUnit

/-!
# Rule/Match — a rule's hold on a place, and the texts made from it

A `Match` is the node that a rule is about together with named nodes around it.  An `EditText` makes
the text of one edit from a match; it may draw numbers, and its draws count only when it succeeds.
-/

namespace ProbeWeaver

/-- Why no text can be made from a match. -/
inductive MatchError where
  | unbound (rule name : String)
  | invalid (rule message : String)
  deriving DecidableEq, Repr

/-- The wording of such a failure. -/
def MatchError.message : MatchError → String
  | .unbound rule name => "rule " ++ rule ++ ": no binding named '" ++ name ++ "'"
  | .invalid rule message => "rule " ++ rule ++ ": " ++ message

/-- **A match**: the node that a rule is about, and the named nodes, the latest first. -/
structure Match where
  rule : String
  root : Node
  bindings : List (String × Node)

namespace Match

/-- The node of a name; of several the latest. -/
def node? (m : Match) (name : String) : Option Node :=
  if name = "root" then some m.root else m.bindings.lookup name

/-- The node of a name that the rule takes for granted. -/
def node (m : Match) (name : String) : Except MatchError Node :=
  match m.node? name with
  | some n => .ok n
  | none => .error (.unbound m.rule name)

/-- The match with one more name. -/
def bind (m : Match) (name : String) (n : Node) : Match :=
  { m with bindings := (name, n) :: m.bindings }

end Match

/-- **What an edit text sees**: the file, and the edits accepted for it so far. -/
structure EditContext where
  unit : SourceUnit
  accepted : EditSet

/-- Evaluation with numbers to draw; the draws of a failure are lost. -/
abbrev Eval := StateT Numbering (Except MatchError)

/-- Draws the next number of a category. -/
def draw (c : Category) : Eval Nat := fun numbering => .ok (numbering.next c)

/-- The numbers handed out for a category so far. -/
def drawn (c : Category) : Eval Nat := fun numbering => .ok (numbering.count c, numbering)

/-- **The text of an edit**, or nothing when the match does not want the edit. -/
abbrev EditText := EditContext → Match → Eval (Option String)

/-- The same text for every match. -/
def EditText.literal (text : String) : EditText := fun _ _ => pure (some text)

/-- Accepts or rejects a match. -/
abbrev Filter := Match → SourceUnit → Bool

/-- Finds one more node for a match, or rejects it. -/
abbrev Finder := Match → SourceUnit → Option Node

end ProbeWeaver
