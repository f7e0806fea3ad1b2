import ProbeWeaver.FileTree.Basic

/-!
# FileTree/Changes — the files that differ between two file trees
-/

namespace ProbeWeaver.FileTree

mutual

/-- Every file at and below a place, with its bytes. -/
def filesAt (place : Place) : FileTree → List (Place × ByteArray)
  | .file bytes => [(place, bytes)]
  | .link _ => []
  | .directory entries => filesAmong place entries

/-- Every file among the entries of a directory. -/
def filesAmong (place : Place) : List (String × FileTree) → List (Place × ByteArray)
  | [] => []
  | (name, t) :: entries => filesAt (place ++ [name]) t ++ filesAmong place entries

end

/-- **Every file**, with its bytes. -/
def files (t : FileTree) : List (Place × ByteArray) := filesAt [] t

/-- The file at the place has these bytes. -/
def holds (t : FileTree) (place : Place) (bytes : ByteArray) : Bool :=
  match t.get? place with
  | some (.file found) => found == bytes
  | _ => false

/-- **The files that were not there before** with the bytes that they have after. -/
def changes (before after : FileTree) : List (Place × ByteArray) :=
  after.files.filter fun (place, bytes) => !before.holds place bytes

end ProbeWeaver.FileTree
