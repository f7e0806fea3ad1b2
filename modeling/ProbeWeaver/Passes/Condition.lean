import ProbeWeaver.Rule.Pass

/-!
# Passes/Condition — filters and finders that the passes share

Where a match lies, and which statement carries what is inserted for it.
-/

namespace ProbeWeaver.Condition

/-- The construct is spelled in the file itself, not in a macro definition. -/
def isSpelledInFile : Filter := fun m _ => m.root.isSpelledInFile

/-- The construct lies outside `main`. -/
def outsideMain : Filter := fun m u => !u.withinMain m.root

/-- The construct lies outside the operands of `||`. -/
def notUnderOr : Filter := fun m u => !m.root.isUnderOr u.source

/-- The construct lies outside calls. -/
def notUnderCall : Filter := fun m _ => !m.root.isUnderCall

/-- The construct lies outside declarations. -/
def notUnderDeclaration : Filter := fun m _ => !m.root.isUnderDeclaration

/-- The file defines `main`. -/
def holdsMain : Filter := fun _ u => u.holdsMain

/-- The expression is a dereference. -/
def isDereference : Filter := fun m u => u.operator? m.root == some "*"

/-- No subscript is around the subscript. -/
def isOutermostSubscript : Filter := fun m _ => !m.root.hasAncestor [.subscriptExpression]

/-- The expression is no part of a loop's header. -/
def notLoopClause : Filter := fun m _ =>
  match m.root.parent? with
  | some p => p.kind != .forStatement
  | none => false

/-- The declarator declares a variable of automatic storage. -/
def isAutomatic : Filter := fun m u =>
  match m.root.parent? with
  | some decl =>
    decl.functionAround?.isSome &&
      !(Declarator.storageWords u.source decl).any (fun s => s == "static" || s == "extern") &&
      match u.typeGiven? m.root with
      | some type => !type.isFunction
      | none => false
  | none => false

/-- The slot around the construct. -/
def slotAround : Finder := fun m _ => m.root.slotAround?

/-- The declaration of a declarator. -/
def declaration : Finder := fun m _ => m.root.parent?

/-- The first statement of `main`. -/
def startOfMain : Finder := fun _ u => do
  let main ← u.root.namedChildren.find? fun n =>
    n.kind == .functionDefinition && n.definedName? u.source == some "main"
  (← main.field? .body).statementAtStart?

/-- The pattern that matches each file once. -/
def wholeFile : Pattern := (Pattern.construct .sourceUnit []).capture "root"

/-- The pattern that matches each declarator of a declaration. -/
def eachDeclarator : Pattern :=
  .construct .declaration [.field .declarator (Pattern.any.capture "root")]

/-- The pattern that matches any construct of one of the kinds. -/
def anyOf (kinds : List Kind) : Pattern :=
  (Pattern.choice (kinds.map fun k => .construct k [])).capture "root"

end ProbeWeaver.Condition
