/-!
# Text/Search — substrings, their occurrences, and blanks

Substring questions are asked of the character list.  Occurrences are found from left to right and
never overlap: after a hit the search goes on behind it, which `restsAfter` and `eraseAll` carry as
the number of characters still to pass over.
-/

namespace ProbeWeaver.Text

/-- The needle stands somewhere in the characters. -/
def hasInfix (needle : List Char) : List Char → Bool
  | [] => needle.isEmpty
  | c :: cs => needle.isPrefixOf (c :: cs) || hasInfix needle cs

/-- `needle` is a substring of `s`. -/
def contains (s needle : String) : Bool := hasInfix needle.toList s.toList

/-- What follows each occurrence of a nonempty needle, after passing over `skip` characters. -/
def restsAfter (needle : List Char) : Nat → List Char → List (List Char)
  | _, [] => []
  | skip + 1, _ :: cs => restsAfter needle skip cs
  | 0, c :: cs =>
    if needle.isPrefixOf (c :: cs) then
      (c :: cs).drop needle.length :: restsAfter needle (needle.length - 1) cs
    else restsAfter needle 0 cs

/-- Every occurrence of a nonempty needle dropped, after passing over `skip` characters. -/
def eraseFrom (needle : List Char) : Nat → List Char → List Char
  | _, [] => []
  | skip + 1, _ :: cs => eraseFrom needle skip cs
  | 0, c :: cs =>
    if needle.isPrefixOf (c :: cs) then eraseFrom needle (needle.length - 1) cs
    else c :: eraseFrom needle 0 cs

/-- `s` without the occurrences of `needle`. -/
def eraseAll (s needle : String) : String := String.ofList (eraseFrom needle.toList 0 s.toList)

/-- **A blank**: a character with the Unicode property `White_Space`. -/
def isBlank (c : Char) : Bool :=
  let n := c.toNat
  (9 ≤ n && n ≤ 13) || n == 32 || n == 0x85 || n == 0xA0 || n == 0x1680 ||
    (0x2000 ≤ n && n ≤ 0x200A) || n == 0x2028 || n == 0x2029 || n == 0x202F || n == 0x205F ||
    n == 0x3000

/-- Blanks dropped at both ends. -/
def trim (s : String) : String :=
  String.ofList (((s.toList.dropWhile isBlank).reverse.dropWhile isBlank).reverse)

/-- Characters cut at every `sep`: `n` separators give `n + 1` parts. -/
def splitChars (sep : Char) : List Char → List (List Char)
  | [] => [[]]
  | c :: cs =>
    match splitChars sep cs with
    | part :: parts => if c = sep then [] :: part :: parts else (c :: part) :: parts
    | [] => [[]]

/-- The parts of `s` between occurrences of `sep`. -/
def splitAt (s : String) (sep : Char) : List String := (splitChars sep s.toList).map String.ofList

end ProbeWeaver.Text
