import ProbeWeaver.CType.Integer
import ProbeWeaver.Tree.Structure
import ProbeWeaver.Typing.Literal

/-!
# Typing/Declarator — the types that declarations spell

A C declaration is a base type and declarators around the declared names.  `peel` walks a
declarator from the outside in and wraps the base type at each level, so the level next to the name
comes out outermost.
-/

namespace ProbeWeaver

/-- **One declarator** of a declaration, with the type it gives its name. -/
structure Declarator where
  name : Node
  type : CType
  /-- the declarator as it stands in the declaration, its initializer included -/
  node : Node
  init : Option Node

namespace Declarator

/-- The keyword of a record type. -/
def recordKeyword (n : Node) : String := if n.kind = .unionSpecifier then "union" else "struct"

/-- **The name of a record type**; an anonymous one is named by its place. -/
def recordSpelling (source : String) (n : Node) : String :=
  match n.field? .name with
  | some name => recordKeyword n ++ " " ++ name.text source
  | none => recordKeyword n ++ " (anonymous at byte " ++ toString n.start ++ ")"

/-- A word that `sized_type_specifier` puts before its base. -/
def isSizeWord (k : Kind) : Bool := ["signed", "unsigned", "long", "short"].contains k.name

/-- The type that a type specifier names. -/
def typeOfSpecifier (source : String) (n : Node) : CType :=
  match n.kind with
  | .sizedTypeSpecifier =>
    .plain (canonicalSize ((n.children.filter (isSizeWord ·.kind)).map (·.text source))
      ((n.field? .type).map (·.text source)))
  | .structSpecifier | .unionSpecifier => .plain (recordSpelling source n)
  | .enumSpecifier =>
    match n.field? .name with
    | some name => .plain ("enum " ++ name.text source)
    | none => .plain "enum (anonymous)"
  | _ => .plain (Text.trim (n.text source))

/-- The qualifiers right below a declaration or a star. -/
def qualifiersBelow (source : String) (n : Node) : Qualifiers :=
  let words := (n.namedChildren.filter (·.kind == .typeQualifier)).map (·.text source)
  ⟨words.contains "const", words.contains "volatile"⟩

/-- The base type of a declaration; one that names no type is an `int`. -/
def baseType (source : String) (n : Node) : CType :=
  (((n.field? .type).map (typeOfSpecifier source)).getD .int).qualified (qualifiersBelow source n)

/-- A list of the single type `void` stands for no parameter. -/
def dropVoid (params : List CType) : List CType :=
  match params with
  | [t] => if t.render = "void" then [] else params
  | _ => params

/-- **The name and the type of a declarator** around a base type; an abstract declarator has no
name. -/
def peel (source : String) (n : Node) (base : CType) : Option Node × CType :=
  match n.kind with
  | .identifier | .fieldIdentifier | .typeIdentifier => (some n, base)
  | .initDeclarator | .attributedDeclarator =>
    match (n.field? .declarator).attach with
    | some ⟨inner, _⟩ => peel source inner base
    | none => (none, base)
  | .pointerDeclarator | .abstractPointerDeclarator =>
    let type := CType.pointer base (qualifiersBelow source n)
    match (n.field? .declarator).attach with
    | some ⟨inner, _⟩ => peel source inner type
    | none => (none, type)
  | .arrayDeclarator | .abstractArrayDeclarator =>
    let type := CType.array base ((n.field? .size).map (·.text source))
    match (n.field? .declarator).attach with
    | some ⟨inner, _⟩ => peel source inner type
    | none => (none, type)
  | .functionDeclarator | .abstractFunctionDeclarator =>
    let params : List CType :=
      match (n.field? .parameters).attach with
      | some ⟨list, _⟩ =>
        list.namedChildren.attach.filterMap fun ⟨p, _⟩ =>
          if p.kind = .parameterDeclaration then
            match (p.field? .declarator).attach with
            | some ⟨d, _⟩ => some (peel source d (baseType source p)).2.decayed
            | none => some (baseType source p).decayed
          else none
      | none => []
    let type := CType.function base (dropVoid params)
    match (n.field? .declarator).attach with
    | some ⟨inner, _⟩ => peel source inner type
    | none => (none, type)
  | .parenthesizedDeclarator | .abstractParenthesizedDeclarator =>
    match n.firstNamed?.attach with
    | some ⟨inner, _⟩ => peel source inner base
    | none => (none, base)
  | _ => (none, base)
termination_by n.size
decreasing_by
  all_goals first
    | exact Node.size_lt_of_field? (by assumption)
    | exact Node.size_lt_of_firstNamed? (by assumption)
    | exact Nat.lt_trans (Node.size_lt_of_field? (by assumption))
        (Nat.lt_trans (Node.size_lt_of_mem_namedChildren (by assumption))
          (Node.size_lt_of_field? (by assumption)))

/-- The name and the type, when there is a name. -/
def peelNamed? (source : String) (n : Node) (base : CType) : Option (Node × CType) :=
  match peel source n base with
  | (some name, type) => some (name, type)
  | (none, _) => none

/-- The type of an optional declarator around a base type. -/
def peelOptional (source : String) (n : Option Node) (base : CType) : Option Node × CType :=
  match n with
  | some n => peel source n base
  | none => (none, base)

/-- **The element count that an initializer gives** an array without a size. -/
def countFromInit? (source : String) (value : Node) : Option Nat :=
  match value.kind with
  | .initializerList => some value.namedChildren.length
  | .stringLiteral | .concatenatedString => some (Literal.stringSize (value.text source))
  | _ => none

/-- An array type without a size takes the size that an initializer gives it. -/
def sizedBy (source : String) (init : Option Node) : CType → CType
  | .array element none =>
    .array element (init.bind fun v => (countFromInit? source v).map toString)
  | type => type

/-- The initializer of a declarator. -/
def init? (n : Node) : Option Node := if n.kind = .initDeclarator then n.field? .value else none

/-- **Every declarator** of a declaration that declares a name. -/
def declarators (source : String) (decl : Node) : List Declarator :=
  (decl.fillers .declarator).filterMap fun n =>
    (peelNamed? source n (baseType source decl)).map fun (name, type) =>
      ⟨name, sizedBy source (init? n) type, n, init? n⟩

/-- The type of a type descriptor. -/
def describedType (source : String) (n : Node) : CType :=
  (peelOptional source (n.field? .declarator) (baseType source n)).2

/-- The type of a function definition. -/
def definedType? (source : String) (definition : Node) : Option CType := do
  let n ← definition.field? .declarator
  (peelNamed? source n (baseType source definition)).map (·.2)

/-- The storage-class words of a declaration. -/
def storageWords (source : String) (decl : Node) : List String :=
  (decl.namedChildren.filter (·.kind == .storageClassSpecifier)).map (·.text source)

/-- The parameter list that belongs to the function a declarator declares. -/
def parameterList? (n : Node) : Option Node :=
  match n.kind with
  | .functionDeclarator => do
    let ⟨inner, _⟩ ← (n.field? .declarator).attach
    if inner.kind = .identifier ∨ inner.kind = .parenthesizedDeclarator then n.field? .parameters
    else parameterList? inner
  | .parenthesizedDeclarator => do
    let ⟨inner, _⟩ ← n.firstNamed?.attach
    parameterList? inner
  | _ => do
    let ⟨inner, _⟩ ← (n.field? .declarator).attach
    parameterList? inner
termination_by n.size
decreasing_by
  all_goals first
    | exact Node.size_lt_of_field? (by assumption)
    | exact Node.size_lt_of_firstNamed? (by assumption)

/-- **The type of a parameter** of a function definition, decayed. -/
def typeOfParameter? (source : String) (definition : Node) (name : String) : Option CType := do
  let list ← parameterList? (← definition.field? .declarator)
  list.namedChildren.findSome? fun p =>
    if p.kind = .parameterDeclaration then
      match peelOptional source (p.field? .declarator) (baseType source p) with
      | (some n, type) => if n.text source = name then some type.decayed else none
      | (none, _) => none
    else none

end Declarator

end ProbeWeaver
