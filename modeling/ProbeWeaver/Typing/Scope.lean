import ProbeWeaver.Typing.NameTable

/-!
# Typing/Scope — what a name is bound to

A name is looked up from its place outward: the declarations before it in each block, the header of
each `for`, the parameters of the function, and then the file scope.
-/

namespace ProbeWeaver

/-- Where a name is declared. -/
inductive NameSort where
  | blockVariable | parameter | fileVariable | function | enumConstant
  deriving DecidableEq, Repr

/-- **What a name is bound to.** -/
structure NameMeaning where
  kind : NameSort
  type : CType
  deriving DecidableEq, Repr

namespace NameTable

/-- The types that the declarators of a declaration give a name, in order. -/
def typesGiven (source : String) (name : String) (decl : Node) : List CType :=
  ((Declarator.declarators source decl).filter (·.name.text source == name)).map (·.type)

/-- The latest declaration of a name in a block before the place that the search came through. -/
def blockBinding? (source : String) (name : String) (block below : Node) : Option CType :=
  (((block.namedChildren.takeWhile (·.start < below.start)).filter
    (·.kind == .declaration)).flatMap (typesGiven source name)).getLast?

/-- The declaration of a name in the header of a loop, unless the search came through it. -/
def headerBinding? (source : String) (name : String) (loop below : Node) : Option CType := do
  let init ← loop.field? .initializer
  if init.kind = .declaration ∧ ¬ init.sameAs below then (typesGiven source name init).head?
  else none

/-- The binding that one enclosing construct gives a name. -/
def scopeBinding? (source : String) (name : String) (scope below : Node) : Option NameMeaning :=
  match scope.kind with
  | .compoundStatement | .caseStatement =>
    (blockBinding? source name scope below).map (⟨.blockVariable, ·⟩)
  | .forStatement => (headerBinding? source name scope below).map (⟨.blockVariable, ·⟩)
  | .functionDefinition =>
    (Declarator.typeOfParameter? source scope name).map (⟨.parameter, ·⟩)
  | _ => none

/-- The innermost binding among enclosing constructs. -/
def localBinding? (source : String) (name : String) : Node → List Node → Option NameMeaning
  | _, [] => none
  | below, scope :: outer =>
    match scopeBinding? source name scope below with
    | some binding => some binding
    | none => localBinding? source name scope outer

/-- The binding at file scope: a variable, else a function, else an enumeration constant. -/
def fileBinding? (names : NameTable) (name : String) : Option NameMeaning :=
  match names.global? name with
  | some type => some ⟨.fileVariable, type⟩
  | none =>
    match names.function? name with
    | some type => some ⟨.function, type⟩
    | none => if names.enumConstants.contains name then some ⟨.enumConstant, .int⟩ else none

/-- **The binding of a name as seen from a place.** -/
def lookup (names : NameTable) (source : String) (name : String) (place : Node) :
    Option NameMeaning :=
  match localBinding? source name place place.ancestors with
  | some binding => some binding
  | none => names.fileBinding? name

end NameTable

end ProbeWeaver
