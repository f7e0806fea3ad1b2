import ProbeWeaver.CType.Basic
import ProbeWeaver.Text.Number

/-!
# Typing/Literal — the types of number and string literals

A number literal is typed by its spelling: a point or an exponent makes it floating, a suffix fixes
the integer type, and an integer without a suffix is an `int` as long as it is at most `2^31 - 1`.
A string literal is an array of its bytes and a terminator.
-/

namespace ProbeWeaver.Literal

/-- The value of an integer literal without a suffix, below `2^64`. -/
def plainValue? (isHex : Bool) (lower : List Char) : Option Nat :=
  if isHex then Text.unsigned? 16 (Text.wordLimit 64) (lower.drop 2)
  else Text.unsigned? 10 (Text.wordLimit 64) lower

/-- The type of an integer literal with a suffix of so many `u` and `l`. -/
def suffixType? : Bool → Nat → Option String
  | false, 0 => none
  | true, 0 => some "unsigned int"
  | false, 1 => some "long"
  | true, 1 => some "unsigned long"
  | false, _ => some "long long"
  | true, _ => some "unsigned long long"

/-- **The type of a number literal.** -/
def typeOfNumber (literal : String) : CType :=
  let lower := literal.toList.map Char.toLower
  let isHex := ['0', 'x'].isPrefixOf lower
  if lower.contains '.' || (!isHex && lower.contains 'e') || (isHex && lower.contains 'p') then
    match lower.getLast? with
    | some 'f' => .plain "float"
    | some 'l' => .plain "long double"
    | _ => .plain "double"
  else
    let suffix := lower.reverse.takeWhile fun c => c == 'u' || c == 'l'
    match suffixType? (suffix.contains 'u') (suffix.count 'l') with
    | some name => .plain name
    | none =>
      match plainValue? isHex lower with
      | some value => if Text.wordLimit 31 ≤ value then .plain "long" else .plain "int"
      | none => .plain "int"

/-- Bytes that quoted pieces denote, starting outside or inside quotes.  An escape counts as one
byte and takes one character after the backslash. -/
def quotedBytes : Bool → List Char → Nat
  | _, [] => 0
  | false, c :: cs => quotedBytes (c == '"') cs
  | true, '"' :: cs => quotedBytes false cs
  | true, '\\' :: _ :: cs => 1 + quotedBytes true cs
  | true, ['\\'] => 1
  | true, c :: cs => c.utf8Size + quotedBytes true cs

/-- **The element count of a string literal's array**, its terminator included. -/
def stringSize (literal : String) : Nat := quotedBytes false literal.toList + 1

end ProbeWeaver.Literal
