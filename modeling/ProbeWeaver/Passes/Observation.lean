import ProbeWeaver.Config.Settings
import ProbeWeaver.Marker.Probe
import ProbeWeaver.Passes.Condition

/-!
# Passes/Observation — probes of values, by mode

Each probe stands before the statement that holds the expression it reports, so it prints the value
that the statement is about to use.
-/

namespace ProbeWeaver.Observation

/-- A marker and, on the same line, a probe. -/
def markedProbe (c : Category) (id : Nat) (kind : String) (fields : List String)
    (format : String) (args : List String) : String :=
  marker (some id) kind fields ++ Probe.statement c id format args

/-- A pattern for the constructs of one kind. -/
def each (k : Kind) : Pattern := Condition.anyOf [k]

/-! ## Pointers -/

/-- The expression is assigned to. -/
def isTarget : Filter := fun m _ => m.root.isAssigned

/-- The expression is not assigned to. -/
def isNoTarget : Filter := fun m _ => !m.root.isAssigned

/-- No address is taken around the expression. -/
def keepsAddress : Filter := fun m u => !m.root.isUnderOperator u.source "&"

/-- No address is taken and nothing is stepped around the expression. -/
def isUntouched : Filter := fun m u =>
  ["&", "++", "--"].all fun op => !m.root.isUnderOperator u.source op

/-- The expression lies under a dereference or a subscript. -/
def underDereference : Filter := fun m u =>
  m.root.ancestors.any fun a =>
    a.kind == .subscriptExpression ||
      (a.kind == .pointerExpression && u.operator? a == some "*")

/-- The expression is a pointer or an array. -/
def isPointerTyped : Filter := fun m u =>
  match u.typeOf m.root with
  | some type => (u.resolve type).isPointerLike
  | none => false

/-- The name belongs to a block or a file. -/
def isVariable : Filter := fun m u =>
  match u.binding? m.root with
  | some b => b.kind == .blockVariable || b.kind == .fileVariable
  | none => false

/-- The type of an expression as a marker field; nothing for unions and constants. -/
def reportedType? (u : SourceUnit) (n : Node) : Option CType :=
  (u.printedType? n).filter fun type => !type.spellsUnion && !type.spellsConst

/-- The marker of a pointer, with a probe unless it is assigned. -/
def pointerReference (isAssigned : Bool) : EditText := fun cx m => do
  match reportedType? cx.unit m.root with
  | none => return none
  | some type =>
    let expr := cx.unit.text m.root
    let id ← draw .ptr
    if isAssigned then
      return some (marker (some id) "VARREF_ASSIGN" [type.render, expr] ++ "\n")
    else
      return some (markedProbe .ptr id "VARREF_POINTER" [type.render, expr]
        ("PTR:" ++ toString id ++ ":%p") [expr])

/-- The rules of the pointer mode. -/
def pointerSet : RuleSet :=
  .firstOf [
    (Rule.ofPattern "value-pointer" (each .identifier))
      |>.bind "stmt" Condition.slotAround
      |>.filter Condition.isSpelledInFile
      |>.filter Condition.outsideMain
      |>.filter isNoTarget
      |>.filter Condition.notUnderOr
      |>.filter Condition.notUnderCall
      |>.filter Condition.notUnderDeclaration
      |>.filter isUntouched
      |>.filter underDereference
      |>.filter isPointerTyped
      |>.filter isVariable
      |>.writeBefore "stmt" (pointerReference false),
    (Rule.ofPattern "value-pointer-assign" (each .identifier))
      |>.bind "stmt" Condition.slotAround
      |>.filter Condition.isSpelledInFile
      |>.filter Condition.outsideMain
      |>.filter isTarget
      |>.filter Condition.notUnderDeclaration
      |>.filter isPointerTyped
      |>.writeBefore "stmt" (pointerReference true),
    (Rule.ofPattern "value-pointer-subscript" (each .subscriptExpression))
      |>.bind "stmt" Condition.slotAround
      |>.filter Condition.isSpelledInFile
      |>.filter Condition.outsideMain
      |>.filter isNoTarget
      |>.filter Condition.notUnderCall
      |>.filter keepsAddress
      |>.filter isPointerTyped
      |>.writeBefore "stmt" (pointerReference false),
    (Rule.ofPattern "value-pointer-subscript-assign" (each .subscriptExpression))
      |>.bind "stmt" Condition.slotAround
      |>.filter Condition.isSpelledInFile
      |>.filter Condition.outsideMain
      |>.filter isTarget
      |>.filter Condition.notUnderDeclaration
      |>.filter isPointerTyped
      |>.writeBefore "stmt" (pointerReference true)]

/-! ## Memory -/

/-- How an expression reaches memory. -/
inductive AccessForm where
  | dereference | field | subscript
  deriving DecidableEq, Repr

/-- The expression holds a mutation hook, in the source or inserted. -/
def isHooked (cx : EditContext) (n : Node) : Bool :=
  Text.contains (cx.unit.text n) "_MUT" || cx.accepted.insertsWithin n.start n.stop "_MUT"

/-- The marker and the probe of an address: the range of the object at it. -/
def memoryReport (cx : EditContext) (n : Node) (type : CType) (address : String) :
    Eval (Option String) := do
  let id ← draw .mem
  return some (markedProbe .mem id "VARREF_MEMORY" [type.render, cx.unit.text n]
    ("MEM:" ++ toString id ++ ":%p:%p") [address, "(" ++ address ++ ")+1"])

/-- Reports the memory that a hooked expression reaches; a field access reports its pointer. -/
def memoryReference (access : AccessForm) : EditText := fun cx m => do
  if isHooked cx m.root then
    match access with
    | .field =>
      let arg ← (m.node "arg" : Except MatchError Node)
      match reportedType? cx.unit arg with
      | none => return none
      | some type =>
        if Text.contains type.render "*" then memoryReport cx arg type (cx.unit.text arg)
        else return none
    | .dereference | .subscript =>
      match reportedType? cx.unit m.root with
      | none => return none
      | some type => memoryReport cx m.root type ("&(" ++ cx.unit.text m.root ++ ")")
  else return none

/-- The marker and the probe of a variable: its address and size. -/
def variableAddress (scope : String) : EditText := fun cx m => do
  match cx.unit.declarator? m.root with
  | none => return none
  | some d =>
    let type := d.type.withoutVolatile.render
    let name := cx.unit.text d.name
    if Text.contains type "(anonymous" then return none
    else
      let id ← draw .var
      return some ("\n" ++ markedProbe .var id "VARDECL" [type, name]
        (scope ++ ":" ++ toString id ++ ":%p:%d")
        ["&(" ++ name ++ ")", "(int)sizeof(" ++ type ++ ")"])

/-- The declaration is no header of a loop. -/
def notInLoopHeader : Filter := fun m _ =>
  match m.root.parent?.bind (·.parent?) with
  | some p => p.kind != .forStatement
  | none => false

/-- The declarator defines a variable of the file. -/
def isFileVariable : Filter := fun m u =>
  match m.root.parent? with
  | some decl =>
    decl.functionAround?.isNone &&
      !(Declarator.storageWords u.source decl).contains "extern" &&
      match u.typeGiven? m.root with
      | some type => !type.isFunction
      | none => false
  | none => false

/-- A rule for one way to reach memory. -/
def memoryAccessRule (name : String) (p : Pattern) (access : AccessForm) : Rule :=
  (Rule.ofPattern name p)
    |>.bind "stmt" Condition.slotAround
    |>.filter Condition.isSpelledInFile
    |>.filter Condition.outsideMain
    |>.filter Condition.notUnderOr
    |>.filter Condition.notUnderCall
    |>.filter Condition.notUnderDeclaration
    |>.writeBefore "stmt" (memoryReference access)

/-- The rules of the memory mode. -/
def memorySet : RuleSet :=
  .firstOf [
    (memoryAccessRule "value-memory-deref" (each .pointerExpression) .dereference)
      |>.filter Condition.isDereference,
    memoryAccessRule "value-memory-field"
      ((Pattern.construct .fieldExpression
        [.field .argument (Pattern.any.capture "arg")]).capture "root") .field,
    (memoryAccessRule "value-memory-subscript" (each .subscriptExpression) .subscript)
      |>.filter Condition.isOutermostSubscript
      |>.filter keepsAddress,
    (Rule.ofPattern "value-memory-local" Condition.eachDeclarator)
      |>.bind "decl" Condition.declaration
      |>.filter Condition.isSpelledInFile
      |>.filter Condition.outsideMain
      |>.filter Condition.isAutomatic
      |>.filter notInLoopHeader
      |>.writeAfter "decl" (variableAddress "LOCAL"),
    (Rule.ofPattern "value-memory-global"
      (.construct .sourceUnit [Condition.eachDeclarator]))
      |>.bind "stmt" Condition.startOfMain
      |>.filter Condition.holdsMain
      |>.filter Condition.isSpelledInFile
      |>.filter isFileVariable
      |>.writeBefore "stmt" (variableAddress "GLOBAL")]

/-! ## Integers -/

/-- The pattern of a binary expression with its operands. -/
def bothOperands : Pattern :=
  (Pattern.construct .binaryExpression
    [.field .left (Pattern.any.capture "left"),
      .field .right (Pattern.any.capture "right")]).capture "root"

/-- The operator of the expression is one of these. -/
def operatorIn (ops : List String) : Filter := fun m u =>
  match u.operator? m.root with
  | some op => ops.contains op
  | none => false

/-- The type in which an operand is reported: its own name when that is the common type. -/
def keptType (common declared resolved : CType) : CType :=
  if resolved.unqualified = common then declared.unqualified else common

/-- **The types of the operands** after the conversions that the operator applies. -/
def convertedTypes? (u : SourceUnit) (op : String) (expr left right : Node) :
    Option (CType × CType) := do
  let declaredLeft ← u.typeOf left
  let declaredRight ← u.typeOf right
  if NameTable.isShift op then
    some (← u.names.promoted declaredLeft, ← u.names.promoted declaredRight)
  else
    let l := (u.resolve declaredLeft).decayed
    let r := (u.resolve declaredRight).decayed
    if l.isPointer || r.isPointer then some (declaredLeft, declaredRight)
    else
      let common ← u.typeOf expr
      some (keptType common declaredLeft l, keptType common declaredRight r)

/-- The type is not printed as an integer. -/
def isExcluded (type : String) : Bool :=
  ["struct", "union", "const", "*", "["].any (Text.contains type)

/-- The format and the cast that print a type. -/
def printConversion (type : String) : String × String :=
  if Text.contains type "uint" || Text.contains type "unsigned" then
    ("%llu", "unsigned long long")
  else ("%lld", "long long")

/-- An operand as the probe evaluates it: steps are left out. -/
def operandText (u : SourceUnit) (n : Node) : String :=
  Text.eraseAll (Text.eraseAll (u.text n) "++") "--"

/-- The marker and the probe of two operands. -/
def operandReport (u : SourceUnit) (op leftType rightType : String) (left right : Node) :
    Eval (Option String) := do
  let l := operandText u left
  let r := operandText u right
  let (leftFormat, leftCast) := printConversion leftType
  let (rightFormat, rightCast) := printConversion rightType
  let id ← draw .int
  return some (markedProbe .int id "VARREF_INTEGER" [leftType, l, rightType, r, op]
    ("INT:" ++ toString id ++ ":" ++ leftFormat ++ ":" ++ rightFormat)
    ["(" ++ leftCast ++ ")(" ++ l ++ ")", "(" ++ rightCast ++ ")(" ++ r ++ ")"])

/-- The expression holds a relocated name, in the source or inserted. -/
def isRelocated (cx : EditContext) (n : Node) : Bool :=
  Text.contains (cx.unit.text n) "MUT_" || cx.accepted.insertsWithin n.start n.stop "MUT_"

/-- Reports the operands of an expression. -/
def integerOperands : EditText := fun cx m => do
  if isRelocated cx m.root then return none
  else
    let left ← (m.node "left" : Except MatchError Node)
    let right ← (m.node "right" : Except MatchError Node)
    match cx.unit.operator? m.root with
    | none => return none
    | some op =>
      match convertedTypes? cx.unit op m.root left right with
      | none => return none
      | some (leftType, rightType) =>
        if isExcluded leftType.render || isExcluded rightType.render then return none
        else operandReport cx.unit op leftType.render rightType.render left right

/-- The rule of the integer mode. -/
def integerRule : Rule :=
  (Rule.ofPattern "value-integer" bothOperands)
    |>.bind "stmt" Condition.slotAround
    |>.filter Condition.isSpelledInFile
    |>.filter (operatorIn ["+", "-", "*", "<<", ">>"])
    |>.filter Condition.notUnderOr
    |>.filter Condition.notLoopClause
    |>.filter Condition.notUnderCall
    |>.writeBefore "stmt" integerOperands

/-- The rule of the divider mode. -/
def dividerRule : Rule :=
  (Rule.ofPattern "value-divider" bothOperands)
    |>.bind "stmt" Condition.slotAround
    |>.filter Condition.isSpelledInFile
    |>.filter (operatorIn ["/", "%"])
    |>.filter Condition.notUnderOr
    |>.filter Condition.notLoopClause
    |>.writeBefore "stmt" integerOperands

/-! ## Array and pointer indices -/

/-- The first variable in an expression. -/
def leadingVariable? (u : SourceUnit) (n : Node) : Option Node :=
  n.identifiers.find? fun i =>
    match u.binding? i with
    | some b => b.kind == .blockVariable || b.kind == .parameter || b.kind == .fileVariable
    | none => false

/-- The first variable in a named expression. -/
def variableIn (name : String) : Finder := fun m u => do leadingVariable? u (← m.node? name)

/-- The right operand, when it is a relocated pointer's name. -/
def shadowOffset : Finder := fun m u => do
  let right := (← m.node? "right").withoutParens
  if right.kind = .identifier ∧ Text.contains (u.text right) "MUT_PTR" then some right else none

/-- The marker of a subscript, with its base and index. -/
def arrayReference : EditText := fun cx m => do
  let var ← (m.node "var" : Except MatchError Node)
  let idx ← (m.node "idx" : Except MatchError Node)
  match reportedType? cx.unit var with
  | none => return none
  | some type =>
    if type.spellsStruct then return none
    else
      let id ← draw .array
      return some
        (marker (some id) "VARREF_ARRAY" [type.render, cx.unit.text var, cx.unit.text idx] ++ "\n")

/-- The marker of a pointer's offset. -/
def pointerIndexReference : EditText := fun cx m => do
  let offset ← (m.node "offset" : Except MatchError Node)
  let id ← draw .ptrIndex
  return some (marker (some id) "VARREF_POINTERINDEX" ["int", cx.unit.text offset] ++ "\n")

/-- The pattern of a subscript with its base and index. -/
def subscriptPattern : Pattern :=
  (Pattern.construct .subscriptExpression
    [.field .argument (Pattern.any.capture "base"),
      .field .index (Pattern.any.capture "index")]).capture "root"

/-- The rule of the array-index mode. -/
def arrayIndexRule : Rule :=
  (Rule.ofPattern "value-array-index" subscriptPattern)
    |>.bind "stmt" Condition.slotAround
    |>.bind "var" (variableIn "base")
    |>.bind "idx" (variableIn "index")
    |>.filter Condition.isSpelledInFile
    |>.filter Condition.outsideMain
    |>.filter Condition.notUnderDeclaration
    |>.filter Condition.notUnderOr
    |>.writeBefore "stmt" arrayReference

/-- The rule of the pointer-index mode. -/
def pointerIndexRule : Rule :=
  (Rule.ofPattern "value-pointer-index"
    ((Pattern.construct .binaryExpression
      [.field .right (Pattern.any.capture "right")]).capture "root"))
    |>.bind "stmt" Condition.slotAround
    |>.bind "offset" shadowOffset
    |>.filter Condition.isSpelledInFile
    |>.filter (operatorIn ["+"])
    |>.filter Condition.notUnderOr
    |>.writeBefore "stmt" pointerIndexReference

/-! ## Conditions -/

/-- The types that the init mode reports. -/
def initTypes : List String :=
  ["int8_t", "int16_t", "int32_t", "int64_t", "uint8_t", "uint16_t", "uint32_t", "uint64_t"]

/-- The expressions that the init mode looks at. -/
def initExpressions : List Kind :=
  [.identifier, .fieldExpression, .subscriptExpression, .pointerExpression, .binaryExpression,
    .unaryExpression, .updateExpression, .castExpression, .conditionalExpression, .callExpression]

/-- The innermost `if` among enclosing constructs, if no other statement comes before it and the
bytes lie in its condition. -/
def guardingIf? (span : Span) : List Node → Option Node
  | [] => none
  | a :: outer =>
    if a.kind = .ifStatement then do
      let condition ← a.field? .condition
      if condition.start ≤ span.start ∧ span.stop ≤ condition.stop then some a else none
    else if a.isStatement then none
    else guardingIf? span outer

/-- The `if` whose condition holds the expression. -/
def guardingIf : Finder := fun m _ => guardingIf? m.root.span m.root.ancestors

/-- The construct turns what it holds into something else than a plain operand of a condition. -/
def blocksOperand (u : SourceUnit) (n : Node) : Bool :=
  let opIn (ops : List String) := match u.operator? n with
    | some op => ops.contains op
    | none => false
  match n.kind with
  | .binaryExpression => opIn ["||", "|", "<", "<=", ">", ">="]
  | .assignmentExpression => opIn ["=", "|=", "&="]
  | .pointerExpression => opIn ["&"]
  | .commaExpression | .callExpression | .subscriptExpression => true
  | _ => false

/-- Nothing on the way up to the owner blocks the operand. -/
def reachesOwner (u : SourceUnit) (owner : Node) : List Node → Bool
  | [] => false
  | a :: outer =>
    if a.sameAs owner then true
    else if blocksOperand u a then false
    else reachesOwner u owner outer

/-- The expression is a plain operand of the condition. -/
def isPlainOperand : Filter := fun m u =>
  match m.node? "if" with
  | some owner => reachesOwner u owner m.root.ancestors
  | none => false

/-- The marker of a fixed-width operand. -/
def initReference : EditText := fun cx m => do
  match (cx.unit.printedType? m.root).map (·.render) with
  | none => return none
  | some type =>
    if initTypes.contains type then
      let id ← draw .init
      return some (marker (some id) "VARREF_INIT" [type, cx.unit.text m.root] ++ "\n")
    else return none

/-- The rule of the init mode. -/
def initRule : Rule :=
  (Rule.ofPattern "value-init" (Condition.anyOf initExpressions))
    |>.bind "if" guardingIf
    |>.filter Condition.isSpelledInFile
    |>.filter isPlainOperand
    |>.writeBefore "if" initReference

/-- **The rule sets of a mode.** -/
def setsOf : ProbeMode → List RuleSet
  | .arrayIndex => [.single arrayIndexRule]
  | .pointerIndex => [.single pointerIndexRule]
  | .arrayPointerIndex => [.single arrayIndexRule, .single pointerIndexRule]
  | .memory => [memorySet]
  | .pointer => [pointerSet]
  | .integer => [.single integerRule]
  | .divider => [.single dividerRule]
  | .init => [.single initRule]

end ProbeWeaver.Observation
