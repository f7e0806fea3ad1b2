import ProbeWeaver.CType.Basic

/-!
# CType/Integer — builtin arithmetic types

Ranks and signedness of the builtin integer types, the builtin types behind the fixed-width names,
and the canonical spelling of a list of size words.  Sizes are those of LP64.
-/

namespace ProbeWeaver

/-- **The standing of an integer type**: its conversion rank and whether it is signed. -/
structure IntegerStanding where
  rank : Nat
  isSigned : Bool
  deriving DecidableEq, Repr

/-- The rank of a builtin integer type; the rank of `int` is four. -/
def integerStanding? : String → Option IntegerStanding
  | "_Bool" | "bool" => some ⟨1, false⟩
  | "char" | "signed char" => some ⟨2, true⟩
  | "unsigned char" => some ⟨2, false⟩
  | "short" => some ⟨3, true⟩
  | "unsigned short" => some ⟨3, false⟩
  | "int" => some ⟨4, true⟩
  | "unsigned int" => some ⟨4, false⟩
  | "long" => some ⟨5, true⟩
  | "unsigned long" => some ⟨5, false⟩
  | "long long" => some ⟨6, true⟩
  | "unsigned long long" => some ⟨6, false⟩
  | _ => none

/-- The bytes that a type of the rank takes. -/
def rankSize (rank : Nat) : Nat :=
  if rank ≤ 2 then 1 else if rank = 3 then 2 else if rank = 4 then 4 else 8

/-- The builtin type behind a fixed-width name. -/
def fixedWidthBuiltin? : String → Option String
  | "int8_t" => some "signed char"
  | "uint8_t" => some "unsigned char"
  | "int16_t" => some "short"
  | "uint16_t" => some "unsigned short"
  | "int32_t" => some "int"
  | "uint32_t" => some "unsigned int"
  | "int64_t" | "intptr_t" | "ptrdiff_t" | "ssize_t" => some "long"
  | "uint64_t" | "uintptr_t" | "size_t" => some "unsigned long"
  | _ => none

/-- A floating type. -/
def isFloatingName (name : String) : Bool :=
  name == "float" || name == "double" || name == "long double"

/-- **The canonical spelling of size words and a base type**: `unsigned` is `unsigned int`, and
`long int` is `long`. -/
def canonicalSize (modifiers : List String) (base : Option String) : String :=
  let isUnsigned := modifiers.contains "unsigned"
  let longs := modifiers.count "long"
  let isShort := modifiers.contains "short"
  let core := if longs = 0 then (if isShort then "short" else "int")
    else if longs = 1 then "long" else "long long"
  let integer := if isUnsigned then "unsigned " ++ core else core
  match base with
  | some "char" =>
    if isUnsigned then "unsigned char"
    else if modifiers.contains "signed" then "signed char" else "char"
  | some "double" => if longs = 0 ∧ ¬ isShort then "double"
    else if longs = 0 then integer else "long double"
  | some other => if longs = 0 ∧ ¬ isShort ∧ other ≠ "int" then other else integer
  | none => integer

end ProbeWeaver
