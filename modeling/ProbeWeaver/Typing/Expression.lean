import ProbeWeaver.Typing.Scope

/-!
# Typing/Expression — the static types of expressions

`NameTable.typeOf` gives an expression the type that C gives it, as far as the file tells: a name
from a header or a macro has none, and neither has what depends on it.

* `promoted` — integer promotion; `usualConversion` — the usual arithmetic conversions, on LP64.
-/

namespace ProbeWeaver.NameTable

/-- **Integer promotion** of an arithmetic type. -/
def promoted (names : NameTable) (t : CType) : Option CType := do
  let resolved := (names.resolve t).unqualified
  let name ← resolved.name?
  if isFloatingName name then some resolved
  else if "enum ".toList.isPrefixOf name.toList then some .int
  else
    let standing ← integerStanding? name
    some (if standing.rank < 4 then .int else resolved)

/-- The common type of two integer types of different signedness: the unsigned one unless the
signed one is wider, else the unsigned partner of the signed one. -/
def mixedSigns (signedName : String) (signedRank : Nat) (unsignedName : String)
    (unsignedRank : Nat) : CType :=
  if signedRank ≤ unsignedRank then .plain unsignedName
  else if rankSize unsignedRank < rankSize signedRank then .plain signedName
  else .plain ("unsigned " ++ signedName)

/-- The common type of two promoted types, by their names. -/
def common? (left right : CType) : Option CType := do
  let l ← left.name?
  let r ← right.name?
  match ["long double", "double", "float"].find? fun f => l == f || r == f with
  | some floating => some (.plain floating)
  | none =>
    let lr ← integerStanding? l
    let rr ← integerStanding? r
    if lr.isSigned = rr.isSigned then some (if rr.rank ≤ lr.rank then left else right)
    else if lr.isSigned then some (mixedSigns l lr.rank r rr.rank)
    else some (mixedSigns r rr.rank l lr.rank)

/-- **The usual arithmetic conversions.** -/
def usualConversion (names : NameTable) (left right : CType) : Option CType := do
  common? (← names.promoted left) (← names.promoted right)

/-- Comparisons and logical operators. -/
def isTruthOperator (op : String) : Bool :=
  ["==", "!=", "<", ">", "<=", ">=", "&&", "||"].contains op

/-- A shift. -/
def isShift (op : String) : Bool := op == "<<" || op == ">>"

/-- The type of an addition, subtraction or other arithmetic on decayed operand types. -/
def sumType (names : NameTable) (op : String) (l r : CType) : Option CType :=
  if op == "+" || op == "-" then
    match l.isPointer, r.isPointer with
    | true, true => if op == "-" then some (.plain "long") else names.usualConversion l r
    | true, false => some l
    | false, true => if op == "+" then some r else names.usualConversion l r
    | false, false => names.usualConversion l r
  else names.usualConversion l r

/-- **The type of a binary expression** with operands of these types. -/
def typeOfBinary (names : NameTable) (op : String) (left right : Option CType) : Option CType :=
  if isTruthOperator op then some .int
  else do
    let left ← left
    let right ← right
    if isShift op then names.promoted left
    else names.sumType op (names.resolve left).decayed (names.resolve right).decayed

/-- The member access goes through a pointer. -/
def goesThroughPointer (source : String) (n : Node) : Bool :=
  match n.field? .operator with
  | some op => op.text source == "->"
  | none => n.children.any (·.kind.name == "->")

/-- The type of a field of a record, reached from an expression of the given type. -/
def memberType (names : NameTable) (source : String) (n : Node) (base : CType) :
    Option CType := do
  let base := names.resolve base
  let record ← if goesThroughPointer source n then base.element?.map names.resolve else some base
  let fields ← names.fields? (← record.name?)
  fields.lookup ((← n.field? .field).text source)

/-- What a callee of the given type returns. -/
def resultType (names : NameTable) (callee : CType) : Option CType :=
  let callee := match names.resolve callee with
    | .pointer pointee _ => names.resolve pointee
    | t => t
  match callee with
  | .function result _ => some result
  | _ => none

/-- The type of `&` or `*` applied to an operand of the given type. -/
def addressedType (names : NameTable) (op : String) (operand : CType) : Option CType :=
  if op == "&" then some (.pointerTo operand)
  else match names.resolve operand with
    | .function result params => some (.function result params)
    | t => t.element?

/-- **The static type of an expression**, when it can be known. -/
def typeOf (names : NameTable) (source : String) (n : Node) : Option CType :=
  match n.kind with
  | .identifier => (names.lookup source (n.text source) n).map (·.type)
  | .numberLiteral => some (Literal.typeOfNumber (n.text source))
  | .charLiteral | .trueLiteral | .falseLiteral => some .int
  | .null => some (.pointerTo (.plain "void"))
  | .stringLiteral | .concatenatedString =>
    some (.array (.plain "char") (some (toString (Literal.stringSize (n.text source)))))
  | .parenthesizedExpression => do
    let ⟨inner, _⟩ ← n.firstNamed?.attach
    names.typeOf source inner
  | .subscriptExpression => do
    let ⟨base, _⟩ ← (n.field? .argument).attach
    (names.resolve (← names.typeOf source base)).element?
  | .pointerExpression => do
    let ⟨operand, _⟩ ← (n.field? .argument).attach
    let t ← names.typeOf source operand
    names.addressedType (← n.operator? source) t
  | .fieldExpression => do
    let ⟨base, _⟩ ← (n.field? .argument).attach
    names.memberType source n (← names.typeOf source base)
  | .callExpression => do
    let ⟨callee, _⟩ ← (n.field? .function).attach
    names.resultType (← names.typeOf source callee)
  | .castExpression | .compoundLiteralExpression =>
    (n.field? .type).map (Declarator.describedType source)
  | .assignmentExpression => do
    let ⟨left, _⟩ ← (n.field? .left).attach
    names.typeOf source left
  | .updateExpression => do
    let ⟨operand, _⟩ ← (n.field? .argument).attach
    names.typeOf source operand
  | .unaryExpression => do
    if (← n.operator? source) == "!" then some .int
    else
      let ⟨operand, _⟩ ← (n.field? .argument).attach
      names.promoted (← names.typeOf source operand)
  | .binaryExpression => do
    let op ← n.operator? source
    let left := do
      let ⟨left, _⟩ ← (n.field? .left).attach
      names.typeOf source left
    let right := do
      let ⟨right, _⟩ ← (n.field? .right).attach
      names.typeOf source right
    names.typeOfBinary op left right
  | .conditionalExpression =>
    match (n.field? .consequence).attach with
    | some ⟨branch, _⟩ => names.typeOf source branch
    | none => do
      let ⟨branch, _⟩ ← (n.field? .alternative).attach
      names.typeOf source branch
  | .commaExpression => do
    let ⟨right, _⟩ ← (n.field? .right).attach
    names.typeOf source right
  | .sizeofExpression | .alignofExpression => some (.plain "unsigned long")
  | _ => none
termination_by n.size
decreasing_by
  all_goals first
    | exact Node.size_lt_of_field? (by assumption)
    | exact Node.size_lt_of_firstNamed? (by assumption)

end ProbeWeaver.NameTable
