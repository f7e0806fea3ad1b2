/-!
# Text/Number — digits as numbers

Numbers are read in bases up to sixteen and below a limit, so a number that would not fit is no
number.
-/

namespace ProbeWeaver.Text

/-- The first number that does not fit into so many bits. -/
def wordLimit (bits : Nat) : Nat := Nat.pow 2 bits

/-- The value of a digit in a base up to sixteen. -/
def digit? (base : Nat) (c : Char) : Option Nat :=
  let value? := if '0' ≤ c ∧ c ≤ '9' then some (c.toNat - '0'.toNat)
    else if 'a' ≤ c ∧ c ≤ 'f' then some (c.toNat - 'a'.toNat + 10)
    else if 'A' ≤ c ∧ c ≤ 'F' then some (c.toNat - 'A'.toNat + 10)
    else none
  value?.filter (· < base)

/-- The value of digits after a value read so far. -/
def valueFrom? (base : Nat) : Nat → List Char → Option Nat
  | value, [] => some value
  | value, c :: cs => do valueFrom? base (value * base + (← digit? base c)) cs

/-- **An unsigned number** below a limit: digits, at least one, after an optional plus. -/
def unsigned? (base limit : Nat) (cs : List Char) : Option Nat :=
  let digits := match cs with
    | '+' :: rest => rest
    | _ => cs
  if digits.isEmpty then none else (valueFrom? base 0 digits).filter (· < limit)

/-- A signed number whose amount is below a limit. -/
def signed? (base limit : Nat) (cs : List Char) : Option Int :=
  match cs with
  | '-' :: digits =>
    if digits.head? = some '+' then none else (unsigned? base limit digits).map (-·)
  | _ => (unsigned? base limit cs).map (·)

end ProbeWeaver.Text
