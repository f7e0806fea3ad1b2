import ProbeWeaver.Text.Printable

/-!
# Text/Quoted — text between quotes, as descriptions show it

Quotes and backslashes get a backslash, and characters that do not show on their own an escape, so
the text stays on one line and can be told from any other.
-/

namespace ProbeWeaver.Text

/-- One character inside quotes. -/
def quotedChar (c : Char) : String :=
  if c = '"' then "\\\""
  else if c = '\\' then "\\\\"
  else if c = '\n' then "\\n"
  else if c = '\r' then "\\r"
  else if c = '\t' then "\\t"
  else if c = '\x00' then "\\0"
  else if isPrintable c then c.toString
  else "\\u\x7b" ++ String.ofList (Nat.toDigits 16 c.toNat) ++ "\x7d"

/-- **The text between quotes.** -/
def quoted (s : String) : String := "\"" ++ String.join (s.toList.map quotedChar) ++ "\""

end ProbeWeaver.Text
