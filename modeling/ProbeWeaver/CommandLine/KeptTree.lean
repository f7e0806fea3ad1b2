import ProbeWeaver.FileTree.Basic
import ProbeWeaver.Run.Pipeline
import ProbeWeaver.Tree.Notation

/-!
# CommandLine/KeptTree — syntax trees in files beside the sources

The tree of the text in `a.c` is kept in `a.c.tree`, and the tree of its edited text in
`a.c.out.tree`.  A text whose tree is not on file counts as one syntax error from start to end.
-/

namespace ProbeWeaver.CommandLine

/-- What is put after the path of a source to get that of its tree. -/
def sourceTreeSuffix : String := ".tree"

/-- What is put after the path of a source to get that of its edited text's tree. -/
def editedTreeSuffix : String := ".out.tree"

/-- The tree of a text that nothing is known about. -/
def unknownTree (text : String) : Tree :=
  .node .error none ⟨0, text.utf8ByteSize⟩ false []

/-- The tree that the file at a path keeps. -/
def keptTree? (t : FileTree) (path : String) : Option Tree := do
  Tree.read? (← (t.readText [] path).toOption)

/-- **The parser of a source** that takes its trees from the files beside it. -/
def keptParser (t : FileTree) (path : String) : Parser := fun text =>
  let isSource := (t.readText [] path).toOption == some text
  let suffix := if isSource then sourceTreeSuffix else editedTreeSuffix
  (keptTree? t (path ++ suffix)).getD (unknownTree text)

/-- The file name is that of a source or of a kept tree. -/
def isKeptName (name : String) : Bool :=
  isSourceName name || sourceTreeSuffix.toList.reverse.isPrefixOf name.toList.reverse

end ProbeWeaver.CommandLine
