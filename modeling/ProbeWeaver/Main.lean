import ProbeWeaver.CommandLine.KeptTree
import ProbeWeaver.CommandLine.Session
import ProbeWeaver.FileTree.Changes

/-!
# Main — the program on a disk

Reads what the arguments lead to into a file tree, carries the arguments out on it, and writes the
files that have changed.
-/

namespace ProbeWeaver.CommandLine

/-- The names in a path. -/
def namesIn (path : String) : Place := (Text.splitAt path '/').filter (!·.isEmpty)

/-- The value of an action that may fail. -/
def attempt {α : Type} (action : IO α) : IO (Option α) := do
  try return some (← action)
  catch _ => return none

/-- The path that a path leads to once its links are followed. -/
def realPath? (path : String) : IO (Option String) :=
  attempt do return (← IO.FS.realPath path).toString

/-- The names in a directory; nothing for anything else. -/
def directoryNames? (path : String) : IO (Option (List String)) := do
  let path ← IO.FS.realPath path
  if ← path.isDir then attempt do return (← path.readDir).toList.map (·.fileName)
  else return none

/-- The file at a place. -/
def readFile? (place : Place) : IO (Option FileTree) :=
  attempt do return .file (← IO.FS.readBinFile place.path)

/-- What stands at a place that is free of links above: only sources and kept trees have their
bytes. -/
partial def readBelow? (place : Place) : IO (Option FileTree) := do
  let some real ← realPath? place.path | return none
  if real ≠ place.path then return some (.link real)
  match ← directoryNames? real with
  | some names =>
    let entries ← names.filterMapM fun name => do
      return (← readBelow? (place ++ [name])).map fun t => (name, t)
    return some (.directory entries)
  | none =>
    if (place.getLast?.map isKeptName).getD false then readFile? place
    else return some (.file .empty)

/-- The tree with the entry at a place, if there is one. -/
def put (t : FileTree) (place : Place) (entry : Option FileTree) : FileTree :=
  match entry with
  | some entry => t.set place entry
  | none => t

/-- The tree with the file at a place and the trees kept beside it. -/
def mountFile (t : FileTree) (place : Place) : IO FileTree :=
  ["", sourceTreeSuffix, editedTreeSuffix].foldlM
    (fun t suffix => do
      let kept := namesIn (place.path ++ suffix)
      return put t kept (← readFile? kept))
    t

/-- The tree with what stands behind names, counted from a directory. -/
partial def mount (t : FileTree) (place : Place) (names : List String) : IO FileTree := do
  match names with
  | [] => return put t place (← readBelow? place)
  | name :: rest =>
    if name = "." then mount t place rest
    else if name = ".." then mount t place.dropLast rest
    else
      let next := place ++ [name]
      let some real ← realPath? next.path | return t
      if real ≠ next.path then mount (t.set next (.link real)) [] (namesIn real ++ rest)
      else if (← directoryNames? real).isNone then mountFile t next
      else mount (if (t.get? next).isSome then t else t.set next (.directory [])) next rest

/-- The part of the disk that arguments lead to. -/
def readDisk (here : Place) (args : List String) : IO FileTree := do
  let start := FileTree.set (.directory []) here (.directory [])
  (Session.pathsOfArguments here args).foldlM (fun t path => mount t [] (namesIn path)) start

/-- Carries arguments out and gives the exit status. -/
def runOnDisk (args : List String) : IO UInt32 := do
  let here := namesIn (← IO.FS.realPath (← IO.currentDir)).toString
  let disk ← readDisk here args
  let outcome := Session.perform ⟨disk, here, keptParser disk⟩ args
  for (place, bytes) in disk.changes outcome.tree do
    IO.FS.writeBinFile place.path bytes
  IO.print outcome.printed.output
  IO.eprint outcome.printed.errors
  return UInt32.ofNat outcome.status

end ProbeWeaver.CommandLine

/-- **The program.** -/
def main (args : List String) : IO UInt32 := ProbeWeaver.CommandLine.runOnDisk args
