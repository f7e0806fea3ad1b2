import ProbeWeaver.Toml.Token
import ProbeWeaver.Toml.Value

/-!
# Toml/Document — a TOML text as a table

A document is a list of statements: headers, which open a table, and entries, which go into the
table opened last.  A table may be defined once.  It may be passed through any number of times, and
one that was only passed through may still be defined (`Origin`).
-/

namespace ProbeWeaver.Toml

/-! ## Tables under construction -/

/-- **How a table came to be**: defined by a header, made on the way of a header, or made by the
dots of a key. -/
inductive Origin where
  | header | implicit | dotted
  deriving DecidableEq, Repr

/-- What stands under a key while a document is read: a finished value, a table that may still grow,
or the tables of repeated headers. -/
inductive Slot where
  | value (v : Value)
  | table (origin : Origin) (entries : List (String × Slot))
  | tables (elements : List (List (String × Slot)))

/-- The entries of a table under construction. -/
abbrev Entries := List (String × Slot)

mutual

/-- The value of a slot. -/
def Slot.toValue : Slot → Value
  | .value v => v
  | .table _ entries => .table (valuesOf entries)
  | .tables elements => .array (tableValues elements)

/-- The values of entries. -/
def valuesOf : List (String × Slot) → List (String × Value)
  | [] => []
  | (key, slot) :: entries => (key, slot.toValue) :: valuesOf entries

/-- The values of repeated tables. -/
def tableValues : List (List (String × Slot)) → List Value
  | [] => []
  | entries :: elements => .table (valuesOf entries) :: tableValues elements

end

/-- The entries with another slot under a key. -/
def replaceSlot (key : String) (slot : Slot) (entries : Entries) : Entries :=
  entries.map fun (k, old) => if k = key then (k, slot) else (k, old)

/-- **Changes the table at the end of a path.**  Tables missing on the way are made; of repeated
tables the last is meant. -/
def within? (made : Origin) (admits : Origin → Bool) (change : Origin → Entries → Option Entries) :
    List String → Origin → Entries → Option Entries
  | [], origin, entries => change origin entries
  | key :: keys, _, entries =>
    match entries.lookup key with
    | none => do
      let below ← within? made admits change keys made []
      some (entries ++ [(key, .table made below)])
    | some (.table origin below) =>
      if admits origin then do
        let below ← within? made admits change keys origin below
        some (replaceSlot key (.table origin below) entries)
      else none
    | some (.tables elements) => do
      let last ← elements.getLast?
      let last ← within? made admits change keys .header last
      some (replaceSlot key (.tables (elements.dropLast ++ [last])) entries)
    | some (.value _) => none

/-- A key: its dots lead through some tables to a last name. -/
structure KeyPath where
  tables : List String
  name : String
  deriving DecidableEq, Repr

/-- Adds an entry; dots lead only through tables that dots made. -/
def assign? (key : KeyPath) (v : Value) (origin : Origin) (entries : Entries) : Option Entries :=
  within? .dotted (· != .header)
    (fun origin entries =>
      if (origin == .dotted) == key.tables.isEmpty then none
      else if (entries.lookup key.name).isSome then none
      else some (entries ++ [(key.name, .value v)]))
    key.tables origin entries

/-- Defines a table. -/
def openTable? (key : KeyPath) (entries : Entries) : Option Entries :=
  within? .implicit (fun _ => true)
    (fun _ entries =>
      match entries.lookup key.name with
      | none => some (entries ++ [(key.name, .table .header [])])
      | some (.table .implicit below) =>
        some (replaceSlot key.name (.table .header below) entries)
      | _ => none)
    key.tables .header entries

/-- Defines one more of repeated tables. -/
def openElement? (key : KeyPath) (entries : Entries) : Option Entries :=
  within? .implicit (fun _ => true)
    (fun _ entries =>
      match entries.lookup key.name with
      | none => some (entries ++ [(key.name, .tables [[]])])
      | some (.tables elements) =>
        some (replaceSlot key.name (.tables (elements ++ [[]])) entries)
      | _ => none)
    key.tables .header entries

/-! ## Keys and values -/

/-- Blanks dropped. -/
def skipBlanks (ts : List Token) : List Token := ts.dropWhile (· == .blank)

/-- Blanks and line ends dropped. -/
def skipLines (ts : List Token) : List Token :=
  ts.dropWhile fun t => t == .blank || t == .newline

/-- A character of a name without quotes. -/
def isKeyChar (c : Char) : Bool := c.isAlphanum || c == '_' || c == '-'

/-- One name. -/
def name? : Token → Option String
  | .word text => if text.toList.all isKeyChar then some text else none
  | .quoted text false => some text
  | _ => none

/-- How deep values may nest, and how many names a key may have. -/
def depthLimit : Nat := 80

/-- The names of a key, of which so many may follow; blanks may stand around a dot. -/
def names? : Nat → List Token → Option (List String × List Token)
  | 0, _ => none
  | fuel + 1, ts =>
    match skipBlanks ts with
    | [] => none
    | t :: rest => do
      let name ← name? t
      match skipBlanks rest with
      | .dot :: rest => do
        let (names, rest) ← names? fuel rest
        some (name :: names, rest)
      | rest => some ([name], rest)

/-- A key, and what follows it and the blanks behind it. -/
def key? (ts : List Token) : Option (KeyPath × List Token) := do
  let (names, rest) ← names? depthLimit ts
  some (⟨names.dropLast, ← names.getLast?⟩, rest)

/-- What follows a symbol that has to come next. -/
def behind? (t : Token) : List Token → Option (List Token)
  | u :: rest => if u = t then some rest else none
  | [] => none

/-- The words of a plain value, with the dots between them; a date may be followed by a blank and a
time. -/
def plainWords : List Token → String × List Token
  | .word a :: .dot :: .word b :: rest => (a ++ "." ++ b, rest)
  | .word a :: .blank :: .word b :: .dot :: .word c :: rest =>
    if Value.isDate a.toList ∧ Value.isZonedTime (b ++ "." ++ c).toList then
      (a ++ " " ++ b ++ "." ++ c, rest)
    else (a, .blank :: .word b :: .dot :: .word c :: rest)
  | .word a :: .blank :: .word b :: rest =>
    if Value.isDate a.toList then (a ++ " " ++ b, rest) else (a, .blank :: .word b :: rest)
  | .word a :: rest => (a, rest)
  | ts => ("", ts)

mutual

/-- **A value** with room for so many more brackets and braces around one another, and what follows
it. -/
def value? : Nat → Nat → List Token → Option (Value × List Token)
  | 0, _, _ => none
  | _ + 1, _, .quoted text _ :: rest => some (.string text, rest)
  | fuel + 1, room + 1, .openBracket :: rest => do
    let (items, rest) ← items? fuel room rest
    some (.array items, rest)
  | fuel + 1, room + 1, .openBrace :: rest => do
    let (entries, rest) ← entries? fuel room [] rest
    some (.table (valuesOf entries), rest)
  | _ + 1, _, ts => do
    let (word, rest) := plainWords ts
    some (← Value.ofWord? word, rest)

/-- The items of an array up to its bracket; a comma may end the list. -/
def items? : Nat → Nat → List Token → Option (List Value × List Token)
  | 0, _, _ => none
  | fuel + 1, room, ts =>
    match skipLines ts with
    | .closeBracket :: rest => some ([], rest)
    | ts => do
      let (v, rest) ← value? fuel room ts
      match skipLines rest with
      | .closeBracket :: rest => some ([v], rest)
      | .comma :: rest => do
        let (items, rest) ← items? fuel room rest
        some (v :: items, rest)
      | _ => none

/-- The entries of an inline table up to its brace, after the entries so far; a comma may end the
list, and only the dots of a key have to stand on the line of its names. -/
def entries? : Nat → Nat → Entries → List Token → Option (Entries × List Token)
  | 0, _, _, _ => none
  | fuel + 1, room, entries, ts =>
    match skipLines ts with
    | .closeBrace :: rest => some (entries, rest)
    | ts => do
      let (key, rest) ← key? ts
      let rest ← behind? .equals (skipLines rest)
      let (v, rest) ← value? fuel room (skipLines rest)
      let entries ← assign? key v .header entries
      match skipLines rest with
      | .closeBrace :: rest => some (entries, rest)
      | .comma :: rest => entries? fuel room entries rest
      | _ => none

end

/-! ## Statements -/

/-- **A statement**: a header, a repeated header, or an entry. -/
inductive Statement where
  | openTable (key : KeyPath)
  | openElement (key : KeyPath)
  | assign (key : KeyPath) (v : Value)

/-- What follows the end of a line. -/
def endOfLine? (ts : List Token) : Option (List Token) :=
  match skipBlanks ts with
  | [] => some []
  | .newline :: rest => some rest
  | _ => none

/-- One statement, and what follows it. -/
def statement? (fuel : Nat) (ts : List Token) : Option (Statement × List Token) :=
  match ts with
  | .openBracket :: .openBracket :: rest => do
    let (key, rest) ← key? rest
    let rest ← behind? .closeBracket rest
    some (.openElement key, ← behind? .closeBracket rest)
  | .openBracket :: rest => do
    let (key, rest) ← key? rest
    some (.openTable key, ← behind? .closeBracket rest)
  | ts => do
    let (key, rest) ← key? ts
    let rest ← behind? .equals rest
    let (v, rest) ← value? fuel depthLimit (skipBlanks rest)
    some (.assign key v, rest)

/-- The statements of symbols, one a line. -/
def statements? : Nat → List Token → Option (List Statement)
  | 0, _ => none
  | fuel + 1, ts =>
    match skipBlanks ts with
    | [] => some []
    | .newline :: rest => statements? fuel rest
    | ts => do
      let (statement, rest) ← statement? fuel ts
      let rest ← endOfLine? rest
      some (statement :: (← statements? fuel rest))

/-- The document read so far, and the path of the table opened last. -/
structure Progress where
  current : List String := []
  entries : Entries := []

/-- One statement's effect. -/
def Progress.step? (p : Progress) : Statement → Option Progress
  | .openTable key => do
    some ⟨key.tables ++ [key.name], ← openTable? key p.entries⟩
  | .openElement key => do
    some ⟨key.tables ++ [key.name], ← openElement? key p.entries⟩
  | .assign key v => do
    let entries ← within? .implicit (fun _ => true) (assign? key v) p.current .header p.entries
    some { p with entries }

/-- **The table that a text spells.** -/
def read? (text : String) : Option (List (String × Value)) := do
  let ts ← tokens? text
  let statements ← statements? (ts.length + 1) ts
  let done ← statements.foldlM Progress.step? {}
  some (valuesOf done.entries)

end ProbeWeaver.Toml
