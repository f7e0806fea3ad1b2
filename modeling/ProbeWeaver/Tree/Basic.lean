import ProbeWeaver.Tree.Kind

/-!
# Tree/Basic — syntax trees and places in them

A `Tree` is what a parser makes of a text: kinds, fields and byte ranges.  A `Node` is a place in
a tree, the way up to the root included; two places are the same when the way is
(`Node.path`).

* `Node.size_lt_of_mem_children` — a child stands for a smaller tree, the measure by which the
  walks below a node end.
-/

namespace ProbeWeaver

/-- A byte range. -/
structure Span where
  start : Nat
  stop : Nat
  deriving DecidableEq, Repr

/-- **A syntax tree** over a text.  A missing node is one that the parser put in. -/
inductive Tree where
  | node (kind : Kind) (field : Option Field) (span : Span) (missing : Bool)
      (children : List Tree)
  deriving Repr

namespace Tree

/-- The kind of the root. -/
def kind : Tree → Kind
  | node k _ _ _ _ => k

/-- The field that the root fills above. -/
def field : Tree → Option Field
  | node _ f _ _ _ => f

/-- The bytes that the tree covers. -/
def span : Tree → Span
  | node _ _ s _ _ => s

/-- The parser put the root in. -/
def missing : Tree → Bool
  | node _ _ _ m _ => m

/-- The subtrees of the root, in order. -/
def children : Tree → List Tree
  | node _ _ _ _ cs => cs

/-- The root is an error of the parse.  Characters that the parser skipped stand as a childless
error inside another one, which counts for them. -/
def isFault (insideError : Bool) (t : Tree) : Bool :=
  t.missing || (t.kind == .error && !(insideError && t.children.isEmpty))

mutual

/-- Number of nodes. -/
def size : Tree → Nat
  | node _ _ _ _ cs => sizeAll cs + 1

/-- Number of nodes of the trees together. -/
def sizeAll : List Tree → Nat
  | [] => 0
  | t :: ts => t.size + sizeAll ts

end

theorem size_le_sizeAll {t : Tree} : ∀ {ts : List Tree}, t ∈ ts → t.size ≤ sizeAll ts
  | u :: us, h => by
    rcases List.mem_cons.mp h with rfl | h
    · exact Nat.le_add_right _ _
    · exact Nat.le_trans (size_le_sizeAll h) (Nat.le_add_left _ _)

theorem size_lt_of_mem_children {t u : Tree} (h : u ∈ t.children) : u.size < t.size := by
  cases t with
  | node k f s m cs => exact Nat.lt_succ_of_le (size_le_sizeAll h)

mutual

/-- The errors at and below a tree that may stand inside an error. -/
def faultsInside (insideError : Bool) : Tree → List Tree
  | node k f s m cs =>
    (if (node k f s m cs).isFault insideError then [node k f s m cs] else []) ++
      faultsInsideAll (k == .error) cs

/-- The errors in each tree in turn. -/
def faultsInsideAll (insideError : Bool) : List Tree → List Tree
  | [] => []
  | t :: ts => t.faultsInside insideError ++ faultsInsideAll insideError ts

end

/-- **The errors of the parse**, parents before children. -/
def faults (t : Tree) : List Tree := t.faultsInside false

end Tree

/-- **A place in a syntax tree**: the root, or a child of a place, by its index there. -/
inductive Node where
  | root (tree : Tree)
  | child (parent : Node) (index : Nat) (tree : Tree)
  deriving Repr

namespace Node

/-- The tree below the place. -/
def tree : Node → Tree
  | .root t => t
  | .child _ _ t => t

/-- The place above. -/
def parent? : Node → Option Node
  | .root _ => none
  | .child p _ _ => some p

/-- **The way from the root**, last step first. -/
def path : Node → List Nat
  | .root _ => []
  | .child p i _ => i :: p.path

/-- One place of one tree. -/
def sameAs (m n : Node) : Bool := m.path == n.path

/-- A walk that visits parents before children comes to the place first. -/
def precedes (m n : Node) : Bool := decide (m.path.reverse < n.path.reverse)

def kind (n : Node) : Kind := n.tree.kind

def span (n : Node) : Span := n.tree.span

def start (n : Node) : Nat := n.tree.span.start

def stop (n : Node) : Nat := n.tree.span.stop

/-- The text of the place starts first, or ends last of two that start together. -/
def opensBefore (m n : Node) : Bool :=
  m.start < n.start || (m.start == n.start && n.stop < m.stop)

/-- A construct of the grammar, not a token. -/
def isNamed (n : Node) : Bool := n.kind.isNamed

/-- Number of nodes at and below the place. -/
def size (n : Node) : Nat := n.tree.size

/-- Every place right below, in order. -/
def children (n : Node) : List Node := n.tree.children.mapIdx fun i t => .child n i t

/-- The constructs right below, comments left out. -/
def namedChildren (n : Node) : List Node :=
  n.children.filter fun c => c.isNamed && c.kind != .comment

/-- The places right below that fill a field. -/
def fillers (n : Node) (f : Field) : List Node :=
  n.children.filter fun c => c.tree.field == some f

/-- The first place right below that fills a field. -/
def field? (n : Node) (f : Field) : Option Node := n.children.find? fun c => c.tree.field == some f

/-- The first construct right below. -/
def firstNamed? (n : Node) : Option Node := n.namedChildren.head?

/-! ## Children are smaller -/

theorem size_lt_of_mem_children {n c : Node} (h : c ∈ n.children) : c.size < n.size := by
  obtain ⟨i, hi, rfl⟩ := List.mem_mapIdx.mp h
  exact Tree.size_lt_of_mem_children (List.getElem_mem hi)

theorem size_lt_of_mem_namedChildren {n c : Node} (h : c ∈ n.namedChildren) : c.size < n.size :=
  size_lt_of_mem_children (List.mem_filter.mp h).1

theorem size_lt_of_field? {n c : Node} {f : Field} (h : n.field? f = some c) : c.size < n.size :=
  size_lt_of_mem_children (List.mem_of_find?_eq_some h)

theorem size_lt_of_firstNamed? {n c : Node} (h : n.firstNamed? = some c) : c.size < n.size :=
  size_lt_of_mem_namedChildren (List.mem_of_head? h)

/-! ## Walks -/

/-- The places above, innermost first. -/
def ancestors : Node → List Node
  | .root _ => []
  | .child p _ _ => p :: p.ancestors

mutual

/-- Every place at and below `here`, which stands for the tree, parents first. -/
def walkTree (here : Node) : Tree → List Node
  | .node _ _ _ _ cs => here :: walkTrees here 0 cs

/-- Every place at and below the children of `above`, numbered from an index. -/
def walkTrees (above : Node) : Nat → List Tree → List Node
  | _, [] => []
  | i, t :: ts => walkTree (.child above i t) t ++ walkTrees above (i + 1) ts

end

/-- **Every place at and below**, tokens and comments included, parents before children. -/
def walk (n : Node) : List Node := walkTree n n.tree

mutual

/-- The constructs below `here`, which stands for the tree. -/
def descendantsTree (here : Node) : Tree → List Node
  | .node _ _ _ _ cs => descendantsTrees here 0 cs

/-- The constructs at and below the children of `above`, numbered from an index. -/
def descendantsTrees (above : Node) : Nat → List Tree → List Node
  | _, [] => []
  | i, t :: ts =>
    (if t.kind.isNamed && t.kind != .comment then
      .child above i t :: descendantsTree (.child above i t) t
    else []) ++ descendantsTrees above (i + 1) ts

end

/-- **The constructs below**, parents before children; a comment and a token hide what they hold. -/
def descendants (n : Node) : List Node := descendantsTree n n.tree

mutual

/-- The constructs at and below `here`, children first. -/
def postorderTree (here : Node) : Tree → List Node
  | .node _ _ _ _ cs => postorderTrees here 0 cs ++ [here]

/-- The constructs at and below the children of `above`, numbered from an index, children first. -/
def postorderTrees (above : Node) : Nat → List Tree → List Node
  | _, [] => []
  | i, t :: ts =>
    (if t.kind.isNamed && t.kind != .comment then postorderTree (.child above i t) t else []) ++
      postorderTrees above (i + 1) ts

end

/-- The place and the constructs below it, children before parents. -/
def postorder (n : Node) : List Node := postorderTree n n.tree

end Node

end ProbeWeaver
