import ProbeWeaver.Typing.Declarator

/-!
# Typing/NameTable — the file-scope names of a source unit

A `NameTable` holds what a whole file declares: variables, functions, records, type names and
enumeration constants.  Each table lists its entries so that the first one found is in force.

* `NameTable.resolve` — expands type names and fixed-width names, at most sixteen links.
-/

namespace ProbeWeaver

/-- **The file-scope names** of one source unit. -/
structure NameTable where
  globals : List (String × CType) := []
  functions : List (String × CType) := []
  records : List (String × List (String × CType)) := []
  typedefs : List (String × CType) := []
  enumConstants : List String := []
  main : Option Span := none

namespace NameTable

/-- The type of a file-scope variable. -/
def global? (names : NameTable) (name : String) : Option CType := names.globals.lookup name

/-- The type of a function. -/
def function? (names : NameTable) (name : String) : Option CType := names.functions.lookup name

/-- The fields of a record type, by its full name. -/
def fields? (names : NameTable) (record : String) : Option (List (String × CType)) :=
  names.records.lookup record

/-! ## Resolution -/

/-- What a type name stands for: a type definition of the file, else a fixed-width type. -/
def target? (names : NameTable) (name : String) : Option CType :=
  match names.typedefs.lookup name with
  | some type => some type
  | none => (fixedWidthBuiltin? name).map .plain

/-- Follows at most so many type names. -/
def resolveUpTo (names : NameTable) : Nat → CType → CType
  | 0, t => t
  | links + 1, .named name q =>
    match names.target? name with
    | some target => names.resolveUpTo links (target.qualified q)
    | none => .named name q
  | _, t => t

/-- Links that are followed before a chain of type names is given up. -/
def maxLinks : Nat := 16

/-- **The type behind type names.** -/
def resolve (names : NameTable) (t : CType) : CType := names.resolveUpTo maxLinks t

/-! ## Collection -/

/-- Names and types that the declarators of a node declare, in order. -/
def declaredNames (source : String) (n : Node) : List (String × CType) :=
  (n.fillers .declarator).filterMap fun d =>
    (Declarator.peelNamed? source d (Declarator.baseType source n)).map fun (name, type) =>
      (name.text source, type)

/-- The record that a specifier with a body defines. -/
def recordOf? (source : String) (n : Node) : Option (String × List (String × CType)) :=
  if n.kind = .structSpecifier ∨ n.kind = .unionSpecifier then
    (n.field? .body).map fun body =>
      (Declarator.recordSpelling source n,
        (body.namedChildren.filter (·.kind == .fieldDeclaration)).flatMap (declaredNames source))
  else none

/-- The constants that an enumeration with a body defines. -/
def enumeratorsOf (source : String) (n : Node) : List String :=
  if n.kind = .enumSpecifier then
    match n.field? .body with
    | some body => body.namedChildren.filterMap fun e => (e.field? .name).map (·.text source)
    | none => []
  else []

/-- The type names that a type definition defines, the last one first. -/
def typedefsOf (source : String) (n : Node) : List (String × CType) :=
  if n.kind = .typeDefinition then (declaredNames source n).reverse else []

/-- Conditionals and linkage blocks leave what they hold at file scope. -/
def isTransparent (k : Kind) : Bool :=
  k.isConditionalDirective || k == .preprocElse || k == .linkageSpecification ||
    k == .declarationList

mutual

/-- The declarations at file scope below `here`, in order. -/
def fileScopeTree (here : Node) : Tree → List Node
  | .node _ _ _ _ cs => fileScopeTrees here 0 cs

/-- The declarations at file scope among the children of `above`, numbered from an index. -/
def fileScopeTrees (above : Node) : Nat → List Tree → List Node
  | _, [] => []
  | i, t :: ts =>
    (if t.kind == .functionDefinition || t.kind == .declaration then [.child above i t]
    else if isTransparent t.kind then fileScopeTree (.child above i t) t
    else []) ++ fileScopeTrees above (i + 1) ts

end

/-- **The declarations at file scope.** -/
def fileScope (root : Node) : List Node := fileScopeTree root root.tree

/-- The function that a definition defines. -/
def definedFunction? (source : String) (n : Node) : Option (String × CType) := do
  let d ← n.field? .declarator
  let (name, type) ← Declarator.peelNamed? source d (Declarator.baseType source n)
  some (name.text source, type)

/-- What a file-scope declaration declares: names and types, functions among them. -/
def declaredAtFileScope (source : String) (n : Node) : List (String × CType) :=
  if n.kind = .functionDefinition then (definedFunction? source n).toList
  else (Declarator.declarators source n).map fun d => (d.name.text source, d.type)

/-- A definition declares a function whatever its type; a declaration does when the type is one. -/
def isFunctionEntry (n : Node) (entry : String × CType) : Bool :=
  n.kind == .functionDefinition || entry.2.isFunction

/-- **The names of a file.**  A later declaration of a variable or function is in force; of several
definitions of a record or type name the one that ends first is. -/
def build (source : String) (root : Node) : NameTable :=
  let nested := root.postorder
  let declared := (fileScope root).flatMap fun n =>
    (declaredAtFileScope source n).map fun entry => (n, entry)
  { globals := (declared.filter fun (n, e) => !isFunctionEntry n e).reverse.map (·.2)
    functions := (declared.filter fun (n, e) => isFunctionEntry n e).reverse.map (·.2)
    records := nested.filterMap (recordOf? source)
    typedefs := nested.flatMap (typedefsOf source)
    enumConstants := nested.flatMap (enumeratorsOf source)
    main := ((declared.filter fun (n, e) =>
      n.kind == .functionDefinition && e.1 == "main").getLast?).map (·.1.span) }

end NameTable

end ProbeWeaver
