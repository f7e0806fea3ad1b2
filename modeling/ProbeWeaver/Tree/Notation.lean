import ProbeWeaver.Text.Number
import ProbeWeaver.Text.Symbol
import ProbeWeaver.Tree.Basic

/-!
# Tree/Notation — syntax trees written as parenthesized text

    (declaration 0 6 type: (primitive_type 0 3) declarator: (identifier 4 5) (";" 5 6))

A node is its kind, the bytes where it starts and ends, and its children; a token's kind stands in
quotes.  The name of a field comes before the node that fills it, and `MISSING` before the kind of
a node that the parser put in.
-/

namespace ProbeWeaver.Tree

open Text (Symbol)

/-- An open node: what has been read of it, the last child first. -/
structure Opened where
  field : Option Field := none
  missing : Bool := false
  kind : Option Kind := none
  bounds : List Nat := []
  /-- the field that the next child fills -/
  nextField : Option Field := none
  children : List Tree := []

namespace Opened

/-- The node that a closing bracket completes. -/
def close? (o : Opened) : Option Tree :=
  match o.kind, o.bounds, o.nextField with
  | some kind, [stop, start], none =>
    some (.node kind o.field ⟨start, stop⟩ o.missing o.children.reverse)
  | _, _, _ => none

/-- A word: the mark of a missing node, a kind, or one of the bounds. -/
def word? (o : Opened) (name : String) : Option Opened :=
  match o.kind with
  | none =>
    if name = "MISSING" then some { o with missing := true }
    else some { o with kind := some (.ofName name) }
  | some _ => do
    let bound ← Text.valueFrom? 10 0 name.toList
    some { o with bounds := bound :: o.bounds }

/-- The kind of a token. -/
def token? (o : Opened) (spelling : String) : Option Opened :=
  match o.kind with
  | none => some { o with kind := some (.token spelling) }
  | some _ => none

/-- The node with one more child. -/
def push (o : Opened) (t : Tree) : Opened :=
  { o with nextField := none, children := t :: o.children }

end Opened

/-- What has been read: open nodes, the innermost first, or the whole tree. -/
inductive Progress where
  | opened (nodes : List Opened)
  | finished (t : Tree)

/-- Changes the innermost open node. -/
def Progress.change? (f : Opened → Option Opened) : Progress → Option Progress
  | .opened (o :: outer) => do some (.opened ((← f o) :: outer))
  | _ => none

/-- One symbol's effect. -/
def Progress.step? (p : Progress) : Symbol → Option Progress
  | .openParen =>
    match p with
    | .opened [] => some (.opened [{}])
    | .opened (o :: outer) => some (.opened ({ field := o.nextField } :: o :: outer))
    | .finished _ => none
  | .closeParen =>
    match p with
    | .opened [o] => do some (.finished (← o.close?))
    | .opened (o :: above :: outer) => do some (.opened (above.push (← o.close?) :: outer))
    | _ => none
  | .fieldName name => p.change? fun o => some { o with nextField := some (.ofName name) }
  | .word name => p.change? (·.word? name)
  | .quoted spelling => p.change? (·.token? spelling)
  | _ => none

/-- **The tree that a text writes down.** -/
def read? (text : String) : Option Tree := do
  match ← (← Text.symbols? text).foldlM Progress.step? (.opened []) with
  | .finished t => some t
  | .opened _ => none

end ProbeWeaver.Tree
