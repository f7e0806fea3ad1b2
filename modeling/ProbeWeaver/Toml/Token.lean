import ProbeWeaver.Text.Number

/-!
# Toml/Token — the symbols of a TOML text

The text is cut character by character.  Blanks and line ends are kept, since a statement ends with
its line; comments are dropped.
-/

namespace ProbeWeaver.Toml

/-- **A symbol of a TOML text.** -/
inductive Token where
  | openBracket | closeBracket | openBrace | closeBrace | comma | equals | dot | blank | newline
  | word (text : String)
  | quoted (text : String) (isMultiline : Bool)
  deriving DecidableEq, Repr

/-- The two sorts of quotes; only double ones know escapes. -/
inductive Quote where
  | double | single
  deriving DecidableEq, Repr

/-- The character of a quote. -/
def Quote.char : Quote → Char
  | .double => '"'
  | .single => '\''

/-- What the reader of symbols is in the middle of.  Characters are kept last to first. -/
inductive Scan where
  | between
  | comment
  | carriageReturn
  | inWord (chars : List Char)
  /-- behind one or two quotes that may start several lines -/
  | opened (quote : Quote) (count : Nat)
  | inLine (quote : Quote) (chars : List Char)
  /-- in several lines, so many quotes having been read last -/
  | inLines (quote : Quote) (quotes : Nat) (chars : List Char)
  /-- at the start of several lines, where a line end does not count -/
  | firstLine (quote : Quote)
  | firstCarriageReturn (quote : Quote)
  | innerCarriageReturn (quote : Quote) (chars : List Char)
  | escape (isMultiline : Bool) (chars : List Char)
  | hexDigits (isMultiline : Bool) (missing value : Nat) (chars : List Char)
  /-- behind a backslash at the end of a line, and whether the line end has been read -/
  | joinedLine (hasEnded : Bool) (chars : List Char)

/-- A control character that no text may hold. -/
def isControl (c : Char) : Bool := (c.toNat < 32 && c != '\t') || c.toNat == 127

/-- The text of characters read last to first. -/
def textOf (chars : List Char) : String := String.ofList chars.reverse

/-- Starts on a character outside any symbol. -/
def startToken? (c : Char) : Option (List Token × Scan) :=
  if c = '[' then some ([.openBracket], .between)
  else if c = ']' then some ([.closeBracket], .between)
  else if c = '\x7b' then some ([.openBrace], .between)
  else if c = '\x7d' then some ([.closeBrace], .between)
  else if c = ',' then some ([.comma], .between)
  else if c = '=' then some ([.equals], .between)
  else if c = '.' then some ([.dot], .between)
  else if c = ' ' ∨ c = '\t' then some ([.blank], .between)
  else if c = '\n' then some ([.newline], .between)
  else if c = '\r' then some ([], .carriageReturn)
  else if c = '#' then some ([], .comment)
  else if c = '"' then some ([], .opened .double 1)
  else if c = '\'' then some ([], .opened .single 1)
  else if isControl c then none
  else some ([], .inWord [c])

/-- A finished symbol, and a character behind it. -/
def finish? (token : Token) (c : Char) : Option (List Token × Scan) :=
  (startToken? c).map fun (tokens, next) => (token :: tokens, next)

/-- The character that an escape without digits stands for. -/
def escaped? : Char → Option Char
  | 'b' => some '\x08'
  | 't' => some '\t'
  | 'n' => some '\n'
  | 'f' => some '\x0c'
  | 'r' => some '\r'
  | 'e' => some '\x1b'
  | '"' => some '"'
  | '\\' => some '\\'
  | _ => none

/-- Digits that an escape with digits has. -/
def escapeWidth? : Char → Option Nat
  | 'x' => some 2
  | 'u' => some 4
  | 'U' => some 8
  | _ => none

/-- The character of a code point. -/
def scalar? (value : Nat) : Option Char :=
  if value.isValidChar then some (Char.ofNat value) else none

/-- Goes on in the text that an escape stands in. -/
def resume (isMultiline : Bool) (chars : List Char) : Scan :=
  if isMultiline then .inLines .double 0 chars else .inLine .double chars

/-- One character of several lines that is no quote. -/
def lineChar? (quote : Quote) (chars : List Char) (c : Char) : Option (List Token × Scan) :=
  if c = '\\' ∧ quote = .double then some ([], .escape true chars)
  else if c = '\n' then some ([], .inLines quote 0 (c :: chars))
  else if c = '\r' then some ([], .innerCarriageReturn quote chars)
  else if isControl c then none
  else some ([], .inLines quote 0 (c :: chars))

/-- **Reads one character**: the symbols that it completes, and where the reader is then. -/
def scanChar? : Scan → Char → Option (List Token × Scan)
  | .between, c => startToken? c
  | .comment, c =>
    if c = '\n' then some ([.newline], .between)
    else if c = '\r' then some ([], .carriageReturn)
    else if isControl c then none
    else some ([], .comment)
  | .carriageReturn, c => if c = '\n' then some ([.newline], .between) else none
  | .inWord chars, c =>
    match startToken? c with
    | some ([], .inWord _) => some ([], .inWord (c :: chars))
    | _ => finish? (.word (textOf chars)) c
  | .opened quote count, c =>
    if c = quote.char then
      some ([], if count = 1 then .opened quote 2 else .firstLine quote)
    else if count = 2 then finish? (.quoted "" false) c
    else if c = '\\' ∧ quote = .double then some ([], .escape false [])
    else if isControl c then none
    else some ([], .inLine quote [c])
  | .inLine quote chars, c =>
    if c = quote.char then some ([.quoted (textOf chars) false], .between)
    else if c = '\\' ∧ quote = .double then some ([], .escape false chars)
    else if isControl c then none
    else some ([], .inLine quote (c :: chars))
  | .firstLine quote, c =>
    if c = '\n' then some ([], .inLines quote 0 [])
    else if c = '\r' then some ([], .firstCarriageReturn quote)
    else if c = quote.char then some ([], .inLines quote 1 [])
    else lineChar? quote [] c
  | .firstCarriageReturn quote, c => if c = '\n' then some ([], .inLines quote 0 []) else none
  | .innerCarriageReturn quote chars, c =>
    if c = '\n' then some ([], .inLines quote 0 (c :: chars)) else none
  | .inLines quote quotes chars, c =>
    if c = quote.char then
      if quotes < 5 then some ([], .inLines quote (quotes + 1) chars) else none
    else if 3 ≤ quotes then
      finish? (.quoted (textOf (List.replicate (quotes - 3) quote.char ++ chars)) true) c
    else lineChar? quote (List.replicate quotes quote.char ++ chars) c
  | .escape isMultiline chars, c =>
    match escaped? c, escapeWidth? c with
    | some d, _ => some ([], resume isMultiline (d :: chars))
    | none, some width => some ([], .hexDigits isMultiline width 0 chars)
    | none, none =>
      if !isMultiline then none
      else if c = ' ' ∨ c = '\t' then some ([], .joinedLine false chars)
      else if c = '\n' ∨ c = '\r' then some ([], .joinedLine (c = '\n') chars)
      else none
  | .hexDigits isMultiline missing value chars, c => do
    let value := value * 16 + (← Text.digit? 16 c)
    if 1 < missing then some ([], .hexDigits isMultiline (missing - 1) value chars)
    else some ([], resume isMultiline ((← scalar? value) :: chars))
  | .joinedLine hasEnded chars, c =>
    if c = ' ' ∨ c = '\t' ∨ c = '\r' then some ([], .joinedLine hasEnded chars)
    else if c = '\n' then some ([], .joinedLine true chars)
    else if !hasEnded then none
    else if c = '"' then some ([], .inLines .double 1 chars)
    else lineChar? .double chars c

/-- The symbol that the end of the text completes. -/
def lastTokens? : Scan → Option (List Token)
  | .between | .comment => some []
  | .inWord chars => some [.word (textOf chars)]
  | .opened _ 2 => some [.quoted "" false]
  | .inLines quote quotes chars =>
    if 3 ≤ quotes then
      some [.quoted (textOf (List.replicate (quotes - 3) quote.char ++ chars)) true]
    else none
  | _ => none

/-- The symbols of characters, the reader being in the middle of something. -/
def tokensFrom? : Scan → List Char → Option (List Token)
  | scan, [] => lastTokens? scan
  | scan, c :: cs => do
    let (tokens, next) ← scanChar? scan c
    some (tokens ++ (← tokensFrom? next cs))

/-- **The symbols of a text.**  A byte order mark at its start is no part of it. -/
def tokens? (text : String) : Option (List Token) :=
  match text.toList with
  | '\uFEFF' :: cs => tokensFrom? .between cs
  | cs => tokensFrom? .between cs

end ProbeWeaver.Toml
