import ProbeWeaver.Query.Parts
import ProbeWeaver.Text.Search
import ProbeWeaver.Text.Symbol

/-!
# Query/Reader — queries written as parenthesized text

    (if_statement consequence: (_) @stmt) @root

A construct stands in parentheses with its child patterns, a token in quotes, alternatives in
brackets; a field name comes before a pattern and captures come after it.  Of several field names
before one pattern the first counts.  A pattern that the grammar rules out is refused.  The symbols
of the text drive a stack of open patterns.
-/

namespace ProbeWeaver.Query

open Text (Symbol)

/-- What an open pattern is. -/
inductive Opening where
  | top
  | unnamed
  | construct (test : NodeTest)
  | choice

/-- An open pattern: the field name that waits for a pattern, and the patterns inside so far, the
last one first. -/
structure Frame where
  opening : Opening
  field : Option Field := none
  items : List Pattern := []

/-- A frame with one more pattern inside. -/
def Frame.push (frame : Frame) (p : Pattern) : Frame :=
  let p := match frame.field with
    | some f => .field f p
    | none => p
  { frame with field := none, items := p :: frame.items }

/-- Puts a finished pattern into the innermost open one. -/
def pushItem? (p : Pattern) : List Frame → Option (List Frame)
  | [] => none
  | frame :: outer =>
    match frame.opening with
    | .unnamed => none
    | _ => some (frame.push p :: outer)

/-- The test that a name in parentheses stands for. -/
def testOf? (name : String) : Option NodeTest :=
  if name = "_" then some .anyNamed
  else if Grammar.constructs.contains name then some (.kind (.ofName name))
  else none

/-- One symbol's effect on the open patterns. -/
def step? (stack : List Frame) (symbol : Symbol) : Option (List Frame) :=
  match symbol, stack with
  | .openParen, frame :: outer =>
    match frame.opening with
    | .unnamed => none
    | _ => some ({ opening := .unnamed } :: frame :: outer)
  | .openBracket, frame :: outer =>
    match frame.opening with
    | .unnamed => none
    | _ => some ({ opening := .choice } :: frame :: outer)
  | .word name, frame :: outer =>
    match frame.opening with
    | .unnamed => (testOf? name).map fun test => { frame with opening := .construct test } :: outer
    | _ => none
  | .fieldName name, frame :: outer =>
    match frame.opening with
    | .unnamed => none
    | _ =>
      if Grammar.fields.contains name then
        some ({ frame with field := frame.field.or (some (.ofName name)) } :: outer)
      else none
  | .quoted text, stack =>
    if Grammar.tokens.contains text then pushItem? (.node (.kind (.token text)) []) stack else none
  | .captureName name, frame :: outer =>
    match frame.field, frame.items with
    | none, p :: ps => some ({ frame with items := .capture p name :: ps } :: outer)
    | _, _ => none
  | .closeParen, frame :: outer =>
    match frame.opening, frame.field with
    | .construct test, none =>
      if test.canHold frame.items then pushItem? (.node test frame.items.reverse) outer else none
    | _, _ => none
  | .closeBracket, frame :: outer =>
    match frame.opening, frame.field, frame.items with
    | .choice, none, _ :: _ => pushItem? (.choice frame.items.reverse) outer
    | _, _, _ => none
  | _, [] => none

/-- The query that symbols spell: nothing may stay open. -/
def ofSymbols? (symbols : List Symbol) : Option Query := do
  match ← symbols.foldlM step? [{ opening := .top }] with
  | [⟨.top, none, items⟩] => some ⟨items.reverse⟩
  | _ => none

/-- **The query that a text spells.** -/
def read? (text : String) : Option Query := do
  ofSymbols? (← Text.symbols? text)

end ProbeWeaver.Query

namespace ProbeWeaver

/-- Why a text is not a query to run. -/
inductive QueryError where
  | invalid
  | missingRoot (query : String)
  deriving DecidableEq, Repr

/-- The wording of a query error. -/
def QueryError.message : QueryError → String
  | .invalid => "invalid query"
  | .missingRoot query => "query does not capture @root: " ++ query

/-- **A query to run**: one that reads and names the main node of its matches. -/
def Query.compile (text : String) : Except QueryError Query :=
  match Query.read? text with
  | none => .error .invalid
  | some q => if q.capturesRoot then .ok q else .error (.missingRoot (Text.trim text))

end ProbeWeaver
