/-!
# Text/Utf8 — bytes as text, and where they fail to be

A character starts with a lead byte, which fixes the ranges of the bytes behind it.  The first
character that breaks off is the fault of the bytes: it runs into a byte out of range, or into the
end.
-/

namespace ProbeWeaver.Text

/-- Why bytes are no text. -/
inductive Utf8Fault where
  | invalid (length index : Nat)
  | incomplete (index : Nat)
  deriving DecidableEq, Repr

/-- The wording of a fault. -/
def Utf8Fault.message : Utf8Fault → String
  | .invalid length index =>
    "invalid utf-8 sequence of " ++ toString length ++ " bytes from index " ++ toString index
  | .incomplete index => "incomplete utf-8 byte sequence from index " ++ toString index

namespace Utf8

/-- A range of bytes, both ends included. -/
abbrev ByteRange := UInt8 × UInt8

/-- The bytes that continue a character. -/
def tail : ByteRange := (0x80, 0xBF)

/-- **The ranges behind a lead byte**; no character starts with any other byte. -/
def following? (lead : UInt8) : Option (List ByteRange) :=
  if lead < 0x80 then some []
  else if lead < 0xC2 then none
  else if lead < 0xE0 then some [tail]
  else if lead = 0xE0 then some [(0xA0, 0xBF), tail]
  else if lead = 0xED then some [(0x80, 0x9F), tail]
  else if lead < 0xF0 then some [tail, tail]
  else if lead = 0xF0 then some [(0x90, 0xBF), tail, tail]
  else if lead < 0xF4 then some [tail, tail, tail]
  else if lead = 0xF4 then some [(0x80, 0x8F), tail, tail]
  else none

/-- The fault of the bytes that follow `read` bytes of a character which starts at `start` and still
wants bytes in some ranges. -/
def faultFrom? (start read : Nat) : List ByteRange → List UInt8 → Option Utf8Fault
  | [], [] => none
  | _ :: _, [] => some (.incomplete start)
  | (low, high) :: ranges, b :: bytes =>
    if low ≤ b ∧ b ≤ high then faultFrom? start (read + 1) ranges bytes
    else some (.invalid read start)
  | [], b :: bytes =>
    match following? b with
    | some ranges => faultFrom? (start + read) 1 ranges bytes
    | none => some (.invalid 1 (start + read))

/-- The first fault of bytes. -/
def fault? (bytes : List UInt8) : Option Utf8Fault := faultFrom? 0 0 [] bytes

/-- **The text of bytes.** -/
def decode (bytes : ByteArray) : Except Utf8Fault String :=
  match String.fromUTF8? bytes with
  | some text => .ok text
  | none => .error ((fault? bytes.toList).getD (.incomplete bytes.size))

theorem fromUTF8?_toUTF8 (s : String) : String.fromUTF8? s.toUTF8 = some s := by
  unfold String.fromUTF8?
  rw [String.toUTF8_eq_toByteArray, dif_pos s.isValidUTF8]
  rfl

theorem decode_toUTF8 (s : String) : decode s.toUTF8 = .ok s := by
  rw [decode, fromUTF8?_toUTF8]

end Utf8

end ProbeWeaver.Text
