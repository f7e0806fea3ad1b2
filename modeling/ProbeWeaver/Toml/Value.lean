import ProbeWeaver.Text.Number
import ProbeWeaver.Text.Search

/-!
# Toml/Value — the values of a TOML document, and the spellings of plain ones

A plain value is a word: a boolean, an integer, a float or a date with a time.  Floats and dates are
checked and kept as they are spelled.
-/

namespace ProbeWeaver.Toml

/-- **A TOML value.** -/
inductive Value where
  | string (text : String)
  | integer (value : Int)
  | boolean (value : Bool)
  | float (spelling : String)
  | dateTime (spelling : String)
  | array (items : List Value)
  | table (entries : List (String × Value))

namespace Value

/-- An array or table with nothing in it. -/
def isEmptyContainer : Value → Bool
  | .array items => items.isEmpty
  | .table entries => entries.isEmpty
  | _ => false

/-! ## Integers -/

/-- Digits of a base, single underscores between them left out. -/
def digits? (base : Nat) (cs : List Char) : Option (List Char) :=
  let groups := Text.splitChars '_' cs
  if groups.all fun g => !g.isEmpty && g.all fun c => (Text.digit? base c).isSome then
    some groups.flatten
  else none

/-- Digits of a decimal number, which starts with a zero only if it is one. -/
def decimalDigits? (cs : List Char) : Option (List Char) :=
  (digits? 10 cs).filter fun ds => ds.length = 1 || ds.head? != some '0'

/-- A sign, and what is behind it. -/
def splitSign : List Char → Bool × List Char
  | '-' :: cs => (true, cs)
  | '+' :: cs => (false, cs)
  | cs => (false, cs)

/-- An integer of 64 bits. -/
def inRange (value : Int) : Option Int :=
  let limit : Int := Text.wordLimit 63
  if -limit ≤ value ∧ value < limit then some value else none

/-- The number that digits of a base spell. -/
def valueOf? (base : Nat) (digits : List Char) : Option Int :=
  (Text.valueFrom? base 0 digits).map (·)

/-- **An integer**: decimal with an optional sign, or in a base named by its first characters. -/
def integer? : List Char → Option Int
  | '0' :: 'x' :: cs => do inRange (← valueOf? 16 (← digits? 16 cs))
  | '0' :: 'o' :: cs => do inRange (← valueOf? 8 (← digits? 8 cs))
  | '0' :: 'b' :: cs => do inRange (← valueOf? 2 (← digits? 2 cs))
  | cs => do
    let (isNegative, cs) := splitSign cs
    let value ← valueOf? 10 (← decimalDigits? cs)
    inRange (if isNegative then -value else value)

/-! ## Floats -/

/-- An exponent behind its letter. -/
def isExponent (cs : List Char) : Bool := (digits? 10 (splitSign cs).2).isSome

/-- A fraction behind its point, with an exponent or without. -/
def isFraction (cs : List Char) : Bool :=
  let isMark := fun c => c == 'e' || c == 'E'
  (digits? 10 (cs.takeWhile (!isMark ·))).isSome &&
    match cs.dropWhile (!isMark ·) with
    | [] => true
    | _ :: exponent => isExponent exponent

/-- **A float.** -/
def isFloat (cs : List Char) : Bool :=
  let cs := (splitSign cs).2
  let isMark := fun c => c == '.' || c == 'e' || c == 'E'
  cs == ['i', 'n', 'f'] || cs == ['n', 'a', 'n'] ||
    ((decimalDigits? (cs.takeWhile (!isMark ·))).isSome &&
      match cs.dropWhile (!isMark ·) with
      | '.' :: fraction => isFraction fraction
      | _ :: exponent => isExponent exponent
      | [] => false)

/-! ## Dates and times -/

/-- A number of so many digits. -/
def fixedDigits? (width : Nat) (cs : List Char) : Option Nat :=
  if cs.length = width ∧ cs.all Char.isDigit then Text.valueFrom? 10 0 cs else none

/-- Days of a month. -/
def daysIn (year month : Nat) : Nat :=
  if month = 2 then
    if year % 4 = 0 ∧ (year % 100 ≠ 0 ∨ year % 400 = 0) then 29 else 28
  else if month = 4 ∨ month = 6 ∨ month = 9 ∨ month = 11 then 30
  else 31

/-- A date. -/
def isDate (cs : List Char) : Bool :=
  match (Text.splitChars '-' cs) with
  | [y, m, d] =>
    match fixedDigits? 4 y, fixedDigits? 2 m, fixedDigits? 2 d with
    | some y, some m, some d => 1 ≤ m && m ≤ 12 && 1 ≤ d && d ≤ daysIn y m
    | _, _, _ => false
  | _ => false

/-- Two digits up to a limit. -/
def isPart (limit : Nat) (cs : List Char) : Bool :=
  match fixedDigits? 2 cs with
  | some n => n ≤ limit
  | none => false

/-- A time of day; the seconds may be left out. -/
def isTime (cs : List Char) : Bool :=
  match Text.splitChars ':' cs with
  | [h, m] => isPart 23 h && isPart 59 m
  | [h, m, s] =>
    isPart 23 h && isPart 59 m && isPart 60 (s.takeWhile (· != '.')) &&
      match s.dropWhile (· != '.') with
      | [] => true
      | _ :: fraction => !fraction.isEmpty && fraction.all Char.isDigit
  | _ => false

/-- The distance of a time zone. -/
def isOffset (cs : List Char) : Bool :=
  match Text.splitChars ':' cs with
  | [h, m] => isPart 23 h && isPart 59 m
  | _ => false

/-- A time of day, with a time zone or without. -/
def isZonedTime (cs : List Char) : Bool :=
  let isMark := fun c => c == 'Z' || c == 'z' || c == '+' || c == '-'
  isTime (cs.takeWhile (!isMark ·)) &&
    match cs.dropWhile (!isMark ·) with
    | [] | ['Z'] | ['z'] => true
    | '+' :: offset | '-' :: offset => isOffset offset
    | _ => false

/-- **A date, a time, or both.** -/
def isDateTime (cs : List Char) : Bool :=
  isDate cs || isTime cs ||
    (isDate (cs.take 10) &&
      match cs.drop 10 with
      | mark :: time => (mark == 'T' || mark == 't' || mark == ' ') && isZonedTime time
      | [] => false)

/-- **The value of a word.** -/
def ofWord? (word : String) : Option Value :=
  let cs := word.toList
  if word = "true" then some (.boolean true)
  else if word = "false" then some (.boolean false)
  else
    match integer? cs with
    | some value => some (.integer value)
    | none =>
      if isFloat cs then some (.float word)
      else if isDateTime cs then some (.dateTime word)
      else none

end Value

end ProbeWeaver.Toml
