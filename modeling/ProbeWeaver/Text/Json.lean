/-!
# Text/Json — data written as JSON, one item a line

Items stand two blanks further in than what holds them; an empty list stays on its line.
-/

namespace ProbeWeaver.Text

/-- **Data** with the items of objects in order. -/
inductive Json where
  | string (text : String)
  | number (value : Nat)
  | array (items : List Json)
  | object (fields : List (String × Json))

namespace Json

/-- A character of a quoted text: quotes, backslashes and control characters are escaped. -/
def escape (c : Char) : String :=
  if c = '"' then "\\\""
  else if c = '\\' then "\\\\"
  else if c = '\n' then "\\n"
  else if c = '\r' then "\\r"
  else if c = '\t' then "\\t"
  else if c = '\x08' then "\\b"
  else if c = '\x0c' then "\\f"
  else if c.toNat < 32 then
    "\\u00" ++ String.ofList [Nat.digitChar (c.toNat / 16), Nat.digitChar (c.toNat % 16)]
  else c.toString

/-- A quoted text. -/
def quote (text : String) : String := "\"" ++ String.join (text.toList.map escape) ++ "\""

/-- A new line at a depth. -/
def lineAt (depth : Nat) : String := "\n" ++ String.ofList (List.replicate (2 * depth) ' ')

/-- Items between brackets, one a line. -/
def block (opening closing : String) (depth : Nat) (items : List String) : String :=
  if items.isEmpty then opening ++ closing
  else
    opening ++ lineAt (depth + 1) ++ ("," ++ lineAt (depth + 1)).intercalate items ++
      lineAt depth ++ closing

mutual

/-- Data written at a depth. -/
def renderAt (depth : Nat) : Json → String
  | .string text => quote text
  | .number value => toString value
  | .array items => block "[" "]" depth (renderItems (depth + 1) items)
  | .object fields => block "\x7b" "\x7d" depth (renderFields (depth + 1) fields)

/-- Each item at a depth. -/
def renderItems (depth : Nat) : List Json → List String
  | [] => []
  | item :: items => renderAt depth item :: renderItems depth items

/-- Each field at a depth. -/
def renderFields (depth : Nat) : List (String × Json) → List String
  | [] => []
  | (key, value) :: fields =>
    (quote key ++ ": " ++ renderAt depth value) :: renderFields depth fields

end

/-- **Data as text.** -/
def render (data : Json) : String := renderAt 0 data

end Json

end ProbeWeaver.Text
