/-!
# Text/Position — byte offsets as lines and columns

Lines are counted by line feeds, columns in bytes.  Both start at one, as editors show them.
-/

namespace ProbeWeaver.Text

/-- A place in a text: line and column, both from one. -/
structure Position where
  line : Nat
  column : Nat
  deriving DecidableEq, Repr

/-- Walks `remaining` bytes, a line feed starting a new line. -/
def Position.advance : Position → Nat → List Char → Position
  | p, _, [] => p
  | p, remaining, c :: cs =>
    if remaining < c.utf8Size then ⟨p.line, p.column + remaining⟩
    else if c = '\n' then Position.advance ⟨p.line + 1, 1⟩ (remaining - c.utf8Size) cs
    else Position.advance ⟨p.line, p.column + c.utf8Size⟩ (remaining - c.utf8Size) cs

/-- The place of the byte offset `i`. -/
def positionAt (s : String) (i : Nat) : Position := Position.advance ⟨1, 1⟩ i s.toList

end ProbeWeaver.Text
