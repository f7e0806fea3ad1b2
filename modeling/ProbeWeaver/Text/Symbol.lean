/-!
# Text/Symbol — parenthesized text cut into symbols

    (if_statement consequence: (_) @stmt) ; a comment

The symbols are brackets, words, words before a colon, words behind an at sign, and quoted text.
Blanks separate words, and a comment goes from a semicolon to the end of its line.  Only ASCII
characters are letters, digits or blanks here.
-/

namespace ProbeWeaver.Text

/-- **A symbol** of parenthesized text. -/
inductive Symbol where
  | openParen | closeParen | openBracket | closeBracket
  | word (name : String)
  | fieldName (name : String)
  | captureName (name : String)
  | quoted (text : String)
  deriving DecidableEq, Repr

namespace Symbol

/-- A blank. -/
def isBlank (c : Char) : Bool := c == ' ' || ('\t' ≤ c && c ≤ '\r')

/-- A character that a name may start with. -/
def isNameStart (c : Char) : Bool := c.isAlphanum || c == '_' || c == '-'

/-- A character inside a name. -/
def isNameChar (c : Char) : Bool := isNameStart c || c == '.'

/-- What the reader of symbols is in the middle of.  Characters are kept last to first. -/
inductive Scan where
  | between
  | comment
  | inWord (chars : List Char)
  /-- behind a word that a colon may still follow -/
  | behindWord (chars : List Char)
  | commentBehindWord (chars : List Char)
  | inCapture (chars : List Char)
  | inQuotes (chars : List Char)
  | afterBackslash (chars : List Char)

/-- The character that an escape stands for. -/
def unescape : Char → Char
  | 'n' => '\n'
  | 'r' => '\r'
  | 't' => '\t'
  | '0' => '\x00'
  | c => c

/-- Starts on a character outside any symbol. -/
def start? (c : Char) : Option (List Symbol × Scan) :=
  if c = '(' then some ([.openParen], .between)
  else if c = ')' then some ([.closeParen], .between)
  else if c = '[' then some ([.openBracket], .between)
  else if c = ']' then some ([.closeBracket], .between)
  else if c = ';' then some ([], .comment)
  else if c = '@' then some ([], .inCapture [])
  else if c = '"' then some ([], .inQuotes [])
  else if isBlank c then some ([], .between)
  else if isNameStart c then some ([], .inWord [c])
  else none

/-- The text of characters read last to first. -/
def spelled (chars : List Char) : String := String.ofList chars.reverse

/-- One character behind a word and perhaps blanks. -/
def endWord? (chars : List Char) (c : Char) : Option (List Symbol × Scan) :=
  if c = ':' then some ([.fieldName (spelled chars)], .between)
  else if isBlank c then some ([], .behindWord chars)
  else if c = ';' then some ([], .commentBehindWord chars)
  else (start? c).map fun (symbols, next) => (.word (spelled chars) :: symbols, next)

/-- One character of a comment, after which the reader is where it was before. -/
def skipComment? (within before : Scan) (c : Char) : Option (List Symbol × Scan) :=
  if c = '\n' then some ([], before) else if c = '\x00' then none else some ([], within)

/-- **Reads one character**: the symbols that it completes, and where the reader is then. -/
def scan? : Scan → Char → Option (List Symbol × Scan)
  | .between, c => start? c
  | .comment, c => skipComment? .comment .between c
  | .inWord chars, c =>
    if isNameChar c then some ([], .inWord (c :: chars)) else endWord? chars c
  | .behindWord chars, c => endWord? chars c
  | .commentBehindWord chars, c => skipComment? (.commentBehindWord chars) (.behindWord chars) c
  | .inCapture [], c => if isNameStart c then some ([], .inCapture [c]) else none
  | .inCapture chars, c =>
    if isNameChar c then some ([], .inCapture (c :: chars))
    else (start? c).map fun (symbols, next) => (.captureName (spelled chars) :: symbols, next)
  | .inQuotes chars, c =>
    if c = '"' then some ([.quoted (spelled chars)], .between)
    else if c = '\\' then some ([], .afterBackslash chars)
    else if c = '\n' then none
    else some ([], .inQuotes (c :: chars))
  | .afterBackslash chars, c => some ([], .inQuotes (unescape c :: chars))

/-- The symbols of characters, the reader being in the middle of something. -/
def readFrom? : Scan → List Char → Option (List Symbol)
  | .between, [] | .comment, [] => some []
  | .inWord chars, [] | .behindWord chars, [] | .commentBehindWord chars, [] =>
    some [.word (spelled chars)]
  | .inCapture chars, [] => if chars.isEmpty then none else some [.captureName (spelled chars)]
  | .inQuotes _, [] | .afterBackslash _, [] => none
  | scan, c :: cs => do
    let (symbols, next) ← scan? scan c
    some (symbols ++ (← readFrom? next cs))

end Symbol

/-- **The symbols of a text.** -/
def symbols? (s : String) : Option (List Symbol) := Symbol.readFrom? .between s.toList

end ProbeWeaver.Text
