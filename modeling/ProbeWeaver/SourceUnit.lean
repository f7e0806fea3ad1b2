import ProbeWeaver.Text.Position
import ProbeWeaver.Text.Quoted
import ProbeWeaver.Typing.Expression

/-!
# SourceUnit — one parsed source text

A `SourceUnit` is a text with its syntax tree and the names it declares.  It exists only for a
tree without errors (`SourceUnit.ofTree?`), and every rule of a run reads it as it was parsed:
edited text is never parsed again before the run is over.
-/

namespace ProbeWeaver

/-- **A syntax error**: where the parser failed, and what stands there. -/
structure SyntaxFault where
  span : Span
  position : Text.Position
  text : String
  deriving DecidableEq, Repr

/-- The syntax error at a byte range. -/
def SyntaxFault.at (source : String) (span : Span) : SyntaxFault :=
  ⟨span, Text.positionAt source span.start, Text.slice source span.start span.stop⟩

/-- The syntax errors of a tree, parents before children. -/
def syntaxFaults (source : String) (tree : Tree) : List SyntaxFault :=
  tree.faults.map fun t => SyntaxFault.at source t.span

/-- **The errors of an edited text that its source did not have.**  Edits move offsets, so
errors are told apart by what stands there. -/
def introducedFaults (before after : List SyntaxFault) : List SyntaxFault :=
  after.filter fun e => !before.any (·.text == e.text)

/-- Why a text is no source unit: its syntax errors, at least one. -/
structure SyntaxError where
  faults : List SyntaxFault
  deriving DecidableEq, Repr

/-- The place of the first syntax error. -/
def SyntaxError.position (e : SyntaxError) : Text.Position :=
  (e.faults.head?.map (·.position)).getD ⟨0, 0⟩

/-- The wording of a syntax error. -/
def SyntaxError.message (e : SyntaxError) : String :=
  toString e.faults.length ++ " syntax error(s), first at line " ++ toString e.position.line ++
    ":" ++ toString e.position.column

/-- **A parsed source text.** -/
structure SourceUnit where
  path : String
  source : String
  root : Node
  names : NameTable

namespace SourceUnit

/-- **The unit of a tree without errors.** -/
def ofTree? (path source : String) (tree : Tree) : Except SyntaxError SourceUnit :=
  match syntaxFaults source tree with
  | [] => .ok ⟨path, source, .root tree, NameTable.build source (.root tree)⟩
  | faults => .error ⟨faults⟩

/-- The spelling of a construct. -/
def text (u : SourceUnit) (n : Node) : String := n.text u.source

/-- The unit defines the program's entry point. -/
def holdsMain (u : SourceUnit) : Bool := u.names.main.isSome

/-- The static type of an expression. -/
def typeOf (u : SourceUnit) (n : Node) : Option CType := u.names.typeOf u.source n

/-- The type behind type names. -/
def resolve (u : SourceUnit) (t : CType) : CType := u.names.resolve t

/-- What an identifier is bound to at its own place. -/
def binding? (u : SourceUnit) (n : Node) : Option NameMeaning :=
  u.names.lookup u.source (u.text n) n

/-- Every declarator of a declaration. -/
def declarators (u : SourceUnit) (decl : Node) : List Declarator :=
  Declarator.declarators u.source decl

/-- The declarator that stands at a place right below its declaration. -/
def declarator? (u : SourceUnit) (n : Node) : Option Declarator := do
  (u.declarators (← n.parent?)).find? (·.node.sameAs n)

/-- The type that a declarator gives its name. -/
def typeGiven? (u : SourceUnit) (n : Node) : Option CType := (u.declarator? n).map (·.type)

/-- The name that a declarator declares. -/
def nameGiven? (u : SourceUnit) (n : Node) : Option String :=
  (u.declarator? n).map fun d => u.text d.name

/-- The construct lies in the definition of `main`. -/
def withinMain (u : SourceUnit) (n : Node) : Bool := n.withinMain u.source

/-- The operator of an expression. -/
def operator? (u : SourceUnit) (n : Node) : Option String := n.operator? u.source

/-- The type of an expression as markers print it, without `volatile`. -/
def printedType? (u : SourceUnit) (n : Node) : Option CType :=
  (u.typeOf n).map (·.withoutVolatile)

/-- A one-line description: the path and the size of the text. -/
def describe (u : SourceUnit) : String :=
  "ParsedUnit \x7b path: " ++ Text.quoted u.path ++ ", bytes: " ++ toString u.source.utf8ByteSize ++
    " \x7d"

end SourceUnit

end ProbeWeaver
