import ProbeWeaver.Config.Settings
import ProbeWeaver.Digest.Fingerprint
import ProbeWeaver.Marker.Probe
import ProbeWeaver.Passes.Condition

/-!
# Passes/Relocation — local arrays moved to the heap

The stack-to-heap pass renames every eligible array to a shadow with `MUT_` before its name.  A
relocated array is declared again under its own name as a heap copy of the shadow; for any other a
definition forwards the name to the shadow.  Before a return the relocated arrays in scope are
freed.  The file that defines `main` gets every helper macro and a flag array; another file gets
the helpers it calls.
-/

namespace ProbeWeaver.Relocation

/-! ## Helper macros -/

/-- Copies an array of one dimension. -/
def initArray1 : String :=
  "#define init_arr_1(arr1, arr2, arr_type) " ++
  "  arr_type * arr1 = (arr_type*)malloc(sizeof(arr_type)*(sizeof(arr2) / sizeof(arr2[0])));" ++
  "  for(int i=0; i<(sizeof(arr2) / sizeof(arr2[0])); i++)\x7b " ++
  "    arr1[i] = arr2[i]; " ++
  "  \x7d "

/-- Copies an array of two dimensions. -/
def initArray2 : String :=
  "#define init_arr_2(arr1, arr2, arr_type) " ++
  "  arr_type** arr1 = (arr_type**)" ++
  "malloc(sizeof(arr_type*)*(sizeof(arr2) / sizeof(arr2[0])));" ++
  "  for(int i=0; i<(sizeof(arr2) / sizeof(arr2[0])); i++)\x7b " ++
  "    arr1[i] = (arr_type*)malloc(sizeof(arr_type)*(sizeof(arr2[0]) / sizeof(arr2[0][0]))); " ++
  "    for(int j=0; j<(sizeof(arr2[0]) / sizeof(arr2[0][0])); j++) " ++
  "      arr1[i][j] = arr2[i][j]; " ++
  "  \x7d "

/-- Copies an array of three dimensions. -/
def initArray3 : String :=
  "#define init_arr_3(arr1, arr2, arr_type) " ++
  "  arr_type*** arr1 = (arr_type***)" ++
  "malloc(sizeof(arr_type**)*(sizeof(arr2) / sizeof(arr2[0])));" ++
  "  for(int i=0; i<(sizeof(arr2) / sizeof(arr2[0])); i++)\x7b " ++
  "    arr1[i] = (arr_type**)" ++
  "malloc(sizeof(arr_type*)*(sizeof(arr2[0]) / sizeof(arr2[0][0]))); " ++
  "    for(int j=0; j<(sizeof(arr2[0]) / sizeof(arr2[0][0])); j++)\x7b " ++
  "      arr1[i][j] = (arr_type*)" ++
  "malloc(sizeof(arr_type)*(sizeof(arr2[0][0]) / sizeof(arr2[0][0][0]))); " ++
  "      for(int k=0; k<(sizeof(arr2[0][0]) / sizeof(arr2[0][0][0])); k++) " ++
  "        arr1[i][j][k] = arr2[i][j][k]; " ++
  "    \x7d " ++
  "  \x7d "

/-- Allocates an array of one dimension. -/
def initArray1Uninit : String :=
  "#define init_arr_1_uninit(arr1, arr2, arr_type) " ++
  "  arr_type * arr1 = (arr_type*)malloc(sizeof(arr_type)*(sizeof(arr2) / sizeof(arr2[0])));" ++
  "  "

/-- Allocates an array of two dimensions. -/
def initArray2Uninit : String :=
  "#define init_arr_2_uninit(arr1, arr2, arr_type) " ++
  "  arr_type** arr1 = (arr_type**)" ++
  "malloc(sizeof(arr_type*)*(sizeof(arr2) / sizeof(arr2[0])));" ++
  "  for(int i=0; i<(sizeof(arr2) / sizeof(arr2[0])); i++)\x7b " ++
  "    arr1[i] = (arr_type*)malloc(sizeof(arr_type)*(sizeof(arr2[0]) / sizeof(arr2[0][0]))); " ++
  "  \x7d "

/-- Allocates an array of three dimensions. -/
def initArray3Uninit : String :=
  "#define init_arr_3_uninit(arr1, arr2, arr_type) " ++
  "  arr_type*** arr1 = (arr_type***)" ++
  "malloc(sizeof(arr_type**)*(sizeof(arr2) / sizeof(arr2[0])));" ++
  "  for(int i=0; i<(sizeof(arr2) / sizeof(arr2[0])); i++)\x7b " ++
  "    arr1[i] = (arr_type**)" ++
  "malloc(sizeof(arr_type*)*(sizeof(arr2[0]) / sizeof(arr2[0][0]))); " ++
  "    for(int j=0; j<(sizeof(arr2[0]) / sizeof(arr2[0][0])); j++)\x7b " ++
  "      arr1[i][j] = (arr_type*)" ++
  "malloc(sizeof(arr_type)*(sizeof(arr2[0][0]) / sizeof(arr2[0][0][0]))); " ++
  "    \x7d " ++
  "  \x7d "

/-- Frees an array of one dimension. -/
def free1 : String :=
  "#define free_1(arr, arr2) " ++
  "  free(arr);"

/-- Frees an array of two dimensions; the sizes are those of the shadow. -/
def free2 : String :=
  "#define free_2(arr, arr2) " ++
  "  for(int i=0; i<(sizeof(arr2) / sizeof(arr2[0])); i++)\x7b " ++
  "    free(arr[i]); " ++
  "  \x7d " ++
  "  free(arr);"

/-- Frees an array of three dimensions; the sizes are those of the shadow. -/
def free3 : String :=
  "#define free_3(arr, arr2) " ++
  "  for(int i=0; i<(sizeof(arr2) / sizeof(arr2[0])); i++)\x7b " ++
  "    for(int j=0; j<(sizeof(arr2[0]) / sizeof(arr2[0][0])); j++)\x7b " ++
  "      free(arr[i][j]); " ++
  "    \x7d " ++
  "    free(arr[i]); " ++
  "  \x7d " ++
  "  free(arr);"

/-- **The helpers**, in order, each with the call that needs it. -/
def helperMacros : List (String × String) :=
  [("\ninit_arr_1(", initArray1), ("\ninit_arr_2(", initArray2), ("\ninit_arr_3(", initArray3),
    ("\ninit_arr_1_uninit(", initArray1Uninit), ("\ninit_arr_2_uninit(", initArray2Uninit),
    ("\ninit_arr_3_uninit(", initArray3Uninit), ("\nfree_1(", free1), ("\nfree_2(", free2),
    ("\nfree_3(", free3)]

/-- The header that the helpers need. -/
def header : String := "#include<stdlib.h>\n"

/-! ## The draw -/

/-- **A lottery** that a name wins with a probability, decided by a seed. -/
structure Lottery where
  probability : Nat
  seed : Nat
  deriving DecidableEq, Repr

/-- The lottery of a configuration. -/
def Lottery.of (config : RelocationConfig) : Lottery := ⟨config.probability, config.seed⟩

/-- The draw for a name declared at an offset, below 100. -/
def Lottery.draw (lottery : Lottery) (name : String) (offset : Nat) : Nat :=
  (Xxh3.hash (name ++ "@" ++ toString offset).toUTF8 (UInt64.ofNat lottery.seed)).toNat % 100

/-- The name declared at the offset is relocated. -/
def Lottery.wins (lottery : Lottery) (name : String) (offset : Nat) : Bool :=
  lottery.draw name offset < lottery.probability

/-! ## Eligible and relocated arrays -/

/-- The most dimensions that the helpers serve. -/
def mostDimensions : Nat := 3

/-- A type that the pass renames: an array of few dimensions that mentions no `const`. -/
def isEligibleType (type : CType) : Bool :=
  type.isArray && type.arrayRank ≤ mostDimensions && !type.spellsConst

/-- **An eligible declarator**: one that gives such a type, right in a block and not `extern`. -/
def isEligible (u : SourceUnit) (n : Node) : Bool :=
  match n.parent? with
  | none => false
  | some decl =>
    (match decl.parent? with
      | some p => p.kind == .compoundStatement
      | none => false) &&
    !(Declarator.storageWords u.source decl).contains "extern" &&
    (match u.typeGiven? n with
      | some type => isEligibleType type
      | none => false)

/-- The spelling of what an array holds. -/
def elementSpelling (type : CType) : String := (type.element?.map (·.render)).getD ""

/-- **An array that moves**: no record is in its element type, and its name wins. -/
def isRelocated (u : SourceUnit) (lottery : Lottery) (n : Node) (type : CType) : Bool :=
  match u.nameGiven? n with
  | none => false
  | some name =>
    !Text.contains (elementSpelling type) "struct" &&
      !Text.contains (elementSpelling type) "union" && lottery.wins name n.start

/-! ## Texts -/

/-- The forwarding of a name to its shadow. -/
def forwarding (name : String) : String := "\n#define " ++ name ++ " MUT_" ++ name ++ "\n"

/-- The heap copy of a shadow. -/
def heapCopy (id : Nat) (name : String) (type : CType) (isInitialized : Bool) : String :=
  let rank := toString type.arrayRank
  "\n" ++ marker (some id) "VARDECLHEAP" [elementSpelling type, name, rank] ++ "\ninit_arr_" ++
    rank ++ (if isInitialized then "" else "_uninit") ++ "(" ++ name ++ ", MUT_" ++ name ++ ", " ++
    type.innermost.unqualified.render ++ ")"

/-- What stands after the declaration of an eligible array. -/
def redeclaration (lottery : Lottery) : EditText := fun cx m => do
  match cx.unit.declarator? m.root with
  | none => return none
  | some d =>
    let name := cx.unit.text d.name
    if isRelocated cx.unit lottery m.root d.type then
      let id ← draw .heap
      return some (heapCopy id name d.type (m.root.kind == .initDeclarator))
    else return some (forwarding name)

/-- The declarations of a block before a byte. -/
def declarationsBefore (block : Node) (stop : Nat) : List Node :=
  (block.namedChildren.takeWhile (·.start < stop)).filter (·.kind == .declaration)

/-- The relocated arrays that a declaration declares. -/
def relocatedIn (u : SourceUnit) (lottery : Lottery) (decl : Node) : List Declarator :=
  (u.declarators decl).filter fun d =>
    isEligible u d.node && isRelocated u lottery d.node d.type

/-- **The relocated arrays** of the blocks around a statement, declared before it, in order. -/
def arraysInScope (u : SourceUnit) (lottery : Lottery) (n : Node) : List Declarator :=
  let blocks := n.ancestors.filter (·.kind == .compoundStatement)
  let found := blocks.flatMap fun block =>
    (declarationsBefore block n.start).flatMap (relocatedIn u lottery)
  found.mergeSort fun a b => a.node.start ≤ b.node.start

/-- The names that a returned expression uses. -/
def returnedNames (u : SourceUnit) (ret : Node) : List String :=
  (ret.namedChildren.flatMap (·.identifiers)).map u.text

/-- The call that frees an array. -/
def freeCall (id : Nat) (name : String) (type : CType) : String :=
  marker (some id) "VARREF_FREE" [elementSpelling type, name] ++ "\nfree_" ++
    toString type.arrayRank ++ "(" ++ name ++ ", MUT_" ++ name ++ ");\n"

/-- The calls that free arrays, one after the other. -/
def freeCalls (u : SourceUnit) : List Declarator → Eval String
  | [] => return ""
  | d :: ds => do
    let id ← draw .free
    return freeCall id (u.text d.name) d.type ++ (← freeCalls u ds)

/-- What stands before a return: the arrays in scope are freed, except those it names. -/
def freeing (lottery : Lottery) : EditText := fun cx m => do
  let returned := returnedNames cx.unit m.root
  let freed := (arraysInScope cx.unit lottery m.root).filter fun d =>
    !returned.contains (cx.unit.text d.name)
  if freed.isEmpty then return none else return some (← freeCalls cx.unit freed)

/-- The helpers of a file: all of them where `main` is, elsewhere those in use. -/
def helperLines : EditText := fun cx _ => do
  let numbering ← get
  let main := cx.unit.holdsMain
  let needed := helperMacros.filter fun (call, _) => main || cx.accepted.insertsAnywhere call
  let lines := String.join (needed.map fun (_, text) => text ++ "\n")
  if main then return some (header ++ lines ++ Probe.flagDefinition .free (numbering.count .free))
  else if needed.isEmpty then return none
  else return some (header ++ lines)

/-! ## Rules -/

/-- The name that a declarator declares. -/
def givenName : Finder := fun m u => (u.declarator? m.root).map (·.name)

/-- The declarator is eligible. -/
def isEligibleArray : Filter := fun m u => isEligible u m.root

/-- Shadows and what follows their declarations. -/
def relocationRule (lottery : Lottery) : Rule :=
  (Rule.ofPattern "heap-relocate" Condition.eachDeclarator)
    |>.bind "decl" Condition.declaration
    |>.bind "name" givenName
    |>.filter Condition.isSpelledInFile
    |>.filter Condition.outsideMain
    |>.filter isEligibleArray
    |>.writeBefore "name" (.literal "MUT_")
    |>.writeAfter "decl" (redeclaration lottery)

/-- Calls before returns. -/
def freeRule (lottery : Lottery) : Rule :=
  (Rule.ofPattern "heap-free" (Condition.anyOf [.returnStatement]))
    |>.filter Condition.isSpelledInFile
    |>.filter Condition.outsideMain
    |>.writeBefore "root" (freeing lottery)

/-- Helpers, once every call is in place. -/
def helperRule : Rule :=
  (Rule.ofPattern "heap-helpers" Condition.wholeFile)
    |>.writeAtStart helperLines
    |>.lately

/-- **The stack-to-heap pass.** -/
def pass (config : RelocationConfig) : Pass :=
  { name := "stack-to-heap"
    sets := [.single (relocationRule (.of config))] ++
      (if config.freeOnReturn then [.single (freeRule (.of config))] else []) ++
      [.single helperRule]
    anchorsStatements := true }

end ProbeWeaver.Relocation
