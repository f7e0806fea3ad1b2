import ProbeWeaver.Tree.Basic
import ProbeWeaver.Text.Cut

/-!
# Tree/Structure — where a construct stands in its function

Questions about the shape of a C syntax tree: which statements are bodies and slots, what encloses
a construct, and how operators and names are spelled.

* **A slot** (`isSlot`) is a statement before which another statement may be put.
* **A body** (`isBody`) is what an `if`, an `else` or a loop governs.
-/

namespace ProbeWeaver.Node

/-- The spelling of a construct. -/
def text (source : String) (n : Node) : String := Text.slice source n.start n.stop

/-- `c` fills the field of `n`. -/
def fillsField (n : Node) (f : Field) (c : Node) : Bool := (n.fillers f).any (·.sameAs c)

/-- A statement; declarations count. -/
def isStatement (n : Node) : Bool := n.kind.isStatement

/-- **The body** of an `if`, an `else` or a loop. -/
def isBody (n : Node) : Bool :=
  match n.parent? with
  | none => false
  | some p =>
    match p.kind with
    | .ifStatement => p.fillsField .consequence n || p.fillsField .alternative n
    | .elseClause => true
    | .forStatement | .whileStatement | .doStatement => p.fillsField .body n
    | _ => false

/-- **A slot**: a statement of a block, after a label, or a body. -/
def isSlot (n : Node) : Bool :=
  n.isStatement &&
    match n.parent? with
    | none => false
    | some p =>
      match p.kind with
      | .compoundStatement | .labeledStatement => true
      | .caseStatement => !p.fillsField .value n
      | _ => n.isBody

/-- The nearest slot above. -/
def slotAround? (n : Node) : Option Node := n.ancestors.find? (·.isSlot)

/-- The function definition that holds the construct, or is it. -/
def functionAround? (n : Node) : Option Node :=
  if n.kind = .functionDefinition then some n
  else n.ancestors.find? (·.kind == .functionDefinition)

/-- The identifier that a declarator declares, found by its fields. -/
def declaredIdentifier? (n : Node) : Option Node :=
  match n.kind with
  | .identifier => some n
  | .parenthesizedDeclarator => do
    let ⟨inner, _⟩ ← n.firstNamed?.attach
    declaredIdentifier? inner
  | _ => do
    let ⟨inner, _⟩ ← (n.field? .declarator).attach
    declaredIdentifier? inner
termination_by n.size
decreasing_by
  · rename_i h
    exact size_lt_of_firstNamed? h
  · rename_i h
    exact size_lt_of_field? h

/-- The name of a function definition. -/
def definedName? (source : String) (n : Node) : Option String := do
  (← (← n.field? .declarator).declaredIdentifier?).text source

/-- The construct lies in the definition of `main`. -/
def withinMain (source : String) (n : Node) : Bool :=
  (n.functionAround?.bind (·.definedName? source)) == some "main"

/-- Some construct above is of one of the kinds. -/
def hasAncestor (n : Node) (kinds : List Kind) : Bool := n.ancestors.any (kinds.contains ·.kind)

/-- Tokens that never spell an operator. -/
def isPunctuation (spelling : String) : Bool :=
  ["(", ")", "[", "]", ","].contains spelling

/-- **The operator** of an expression: its operator field, else its first token that is no
bracket or comma. -/
def operator? (source : String) (n : Node) : Option String :=
  match n.field? .operator with
  | some op => some (op.text source)
  | none =>
    (n.children.find? fun c => !c.isNamed && !isPunctuation c.kind.name).map (·.text source)

/-- The construct lies inside an operand of `||`. -/
def isUnderOr (source : String) (n : Node) : Bool :=
  n.ancestors.any fun a => a.kind == .binaryExpression && a.operator? source == some "||"

/-- The construct lies inside a call. -/
def isUnderCall (n : Node) : Bool := n.hasAncestor [.callExpression]

/-- The construct lies inside a declaration. -/
def isUnderDeclaration (n : Node) : Bool := n.hasAncestor [.declaration]

/-- The construct is spelled in the file itself, not in a macro definition. -/
def isSpelledInFile (n : Node) : Bool :=
  !n.hasAncestor [.preprocDef, .preprocFunctionDef, .preprocCall, .preprocArg]

/-- The expression inside any parentheses. -/
def withoutParens (n : Node) : Node :=
  if n.kind = .parenthesizedExpression then
    match n.firstNamed?.attach with
    | some ⟨inner, _⟩ => withoutParens inner
    | none => n
  else n
termination_by n.size
decreasing_by
  rename_i h
  exact size_lt_of_firstNamed? h

/-- The first statement of a block. -/
def statementAtStart? (n : Node) : Option Node := n.namedChildren.find? (·.isStatement)

/-- Every identifier at and below. -/
def identifiers (n : Node) : List Node := (n :: n.descendants).filter (·.kind == .identifier)

/-- The statement that the `else` of an `if` governs. -/
def elseBranch? (n : Node) : Option Node := do
  let alternative ← n.field? .alternative
  if alternative.kind = .elseClause then alternative.firstNamed? else some alternative

/-- The left operand of a plain assignment. -/
def isAssigned (n : Node) : Bool :=
  match n.parent? with
  | none => false
  | some p =>
    p.kind == .assignmentExpression && p.fillsField .left n && p.children.any (·.kind == .token "=")

/-- The construct lies under a unary operator `op`. -/
def isUnderOperator (source : String) (op : String) (n : Node) : Bool :=
  n.ancestors.any fun a =>
    (a.kind == .pointerExpression || a.kind == .unaryExpression || a.kind == .updateExpression) &&
      a.operator? source == some op

end ProbeWeaver.Node
