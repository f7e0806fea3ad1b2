import ProbeWeaver.Text.Search
import ProbeWeaver.Text.Utf8

/-!
# FileTree/Basic — files, directories and symbolic links

A `FileTree` is what a run reads and writes.  A written path is resolved against it name by name:
links are followed, and every name needs a directory to stand in (`FileTree.resolve`).  The result
is a `Place`, the names from the root down, free of links and dots.
-/

namespace ProbeWeaver

/-- **A file, a link, or a directory** with its entries. -/
inductive FileTree where
  | file (bytes : ByteArray)
  | link (target : String)
  | directory (entries : List (String × FileTree))

/-- The names from the root of a file tree down to an entry. -/
abbrev Place := List String

/-- Why a path leads nowhere. -/
inductive FileError where
  | notFound | notADirectory | isADirectory | tooManyLinks | nameTooLong | nullCharacter
  deriving DecidableEq, Repr

/-- The wording of a file error. -/
def FileError.message : FileError → String
  | .notFound => "No such file or directory (os error 2)"
  | .notADirectory => "Not a directory (os error 20)"
  | .isADirectory => "Is a directory (os error 21)"
  | .tooManyLinks => "Too many levels of symbolic links (os error 40)"
  | .nameTooLong => "File name too long (os error 36)"
  | .nullCharacter => "file name contained an unexpected NUL byte"

/-! ## Paths -/

namespace Place

/-- **The path of a place.** -/
def path (p : Place) : String := "/" ++ "/".intercalate p

/-- `p` is `q` or lies below it. -/
def isWithin (p q : Place) : Bool := List.isPrefixOf q p

/-- Places are ordered name by name. -/
def le : Place → Place → Bool
  | [], _ => true
  | _ :: _, [] => false
  | x :: p, y :: q => x < y || (x == y && le p q)

end Place

/-- The path starts at the root. -/
def isAbsolute (path : String) : Bool := path.toList.head? == some '/'

/-- The path holds a character that no path can hold. -/
def holdsNull (path : String) : Bool := path.toList.contains '\x00'

/-- **A path put after a directory**; an absolute one stands alone. -/
def joinPath (directory path : String) : String :=
  if isAbsolute path then path
  else if directory.isEmpty || directory.toList.getLast? == some '/' then directory ++ path
  else directory ++ "/" ++ path

/-- The file name has the extension `c`: something stands before the last dot. -/
def isSourceName (name : String) : Bool :=
  match name.toList.reverse with
  | 'c' :: '.' :: _ :: _ => true
  | _ => false

namespace FileTree

/-! ## Entries by place -/

/-- The entry at a place below. -/
def get? : FileTree → Place → Option FileTree
  | t, [] => some t
  | .directory entries, name :: rest => do (← entries.lookup name).get? rest
  | _, _ :: _ => none

/-- Puts an entry into a directory, in the place of one with the same name. -/
def putEntry (name : String) (t : FileTree) : List (String × FileTree) → List (String × FileTree)
  | [] => [(name, t)]
  | (other, u) :: entries =>
    if other = name then (name, t) :: entries else (other, u) :: putEntry name t entries

/-- The tree with `e` at a place below; directories on the way are made. -/
def set : FileTree → Place → FileTree → FileTree
  | _, [], e => e
  | .directory entries, name :: rest, e =>
    let below := (entries.lookup name).getD (.directory [])
    .directory (putEntry name (below.set rest e) entries)
  | _, name :: rest, e => .directory [(name, (FileTree.directory []).set rest e)]

/-! ## Resolution -/

/-- Links that are followed on one path. -/
def maxLinks : Nat := 40

/-- Bytes of the longest name that an entry may have. -/
def maxNameBytes : Nat := 255

/-- Bytes of the longest path that a file is opened by. -/
def maxPathBytes : Nat := 4095

/-- Follows names from a place on, with so many links left to follow. -/
def resolveNames (root : FileTree) (links : Nat) (here : Place) (names : List String) :
    Except FileError Place :=
  match names with
  | [] => .ok here
  | name :: rest =>
    match root.get? here with
    | some (.directory entries) =>
      if name = "" ∨ name = "." then resolveNames root links here rest
      else if name = ".." then resolveNames root links here.dropLast rest
      else if maxNameBytes < name.utf8ByteSize then .error .nameTooLong
      else
        match entries.lookup name with
        | none => .error .notFound
        | some (.link target) =>
          match links with
          | 0 => .error .tooManyLinks
          | links + 1 =>
            resolveNames root links (if isAbsolute target then [] else here)
              (Text.splitAt target '/' ++ rest)
        | some _ => resolveNames root links (here ++ [name]) rest
    | _ => .error .notADirectory
termination_by (links, names.length)

/-- **The place of a path**, which starts at the directory `here` unless it is absolute. -/
def resolve (root : FileTree) (here : Place) (path : String) : Except FileError Place :=
  if path.isEmpty then .error .notFound
  else if holdsNull path then .error .nullCharacter
  else resolveNames root maxLinks (if isAbsolute path then [] else here) (Text.splitAt path '/')

/-- The bytes of the file at a path.  A path that is too long is not looked up at all. -/
def read (root : FileTree) (here : Place) (path : String) : Except FileError ByteArray :=
  if !holdsNull path && maxPathBytes < path.utf8ByteSize then .error .nameTooLong
  else do
    match root.get? (← root.resolve here path) with
    | some (.file bytes) => .ok bytes
    | some (.directory _) => .error .isADirectory
    | _ => .error .notFound

/-- The entry at a path is a directory. -/
def isDirectory (root : FileTree) (place : Place) : Bool :=
  match root.get? place with
  | some (.directory _) => true
  | _ => false

/-! ## Texts -/

end FileTree

/-- Why the text of a file cannot be read. -/
inductive ReadError where
  | file (cause : FileError)
  | notText
  deriving DecidableEq, Repr

/-- The wording of a read error. -/
def ReadError.message : ReadError → String
  | .file cause => cause.message
  | .notText => "stream did not contain valid UTF-8"

/-- **The text of the file at a path.** -/
def FileTree.readText (root : FileTree) (here : Place) (path : String) : Except ReadError String :=
  match root.read here path with
  | .error cause => .error (.file cause)
  | .ok bytes =>
    match Text.Utf8.decode bytes with
    | .ok text => .ok text
    | .error _ => .error .notText

end ProbeWeaver
