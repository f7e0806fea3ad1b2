import ProbeWeaver.Query.Pattern

/-!
# Query/Finding — the matches of a query in a tree

A shape fits a node in several ways, which differ in the children taken for the shapes below it
(`Shape.ways`).  Of the ways of one pattern at one node a longer one makes shorter ones superfluous:
a way is settled when no other one that was under way when it ended holds all that it names
(`settled`).  `Query.findings` lists the settled ways in the order in which they end.
-/

namespace ProbeWeaver

/-- Named nodes, in the order they were found. -/
abbrev Captures := List (String × Node)

/-- **Captures hold other captures**, both read from the start of the text on. -/
def Captures.holds : Captures → Captures → Bool
  | _, [] => true
  | [], _ :: _ => false
  | (x, m) :: cs, (y, n) :: ds =>
    if x == y && m.sameAs n then holds cs ds
    else m.opensBefore n && holds cs ((y, n) :: ds)

/-- **A way in which a pattern matches**: what it names, and the first and the last node that it
asked for. -/
structure Way where
  captures : Captures
  first : Node
  last : Node

namespace Way

/-- The way with more names, for a node in front. -/
def naming (names : List String) (n : Node) (w : Way) : Way :=
  { w with captures := names.map (·, n) ++ w.captures }

/-- The way below a node, which it starts from, with the names of the node. -/
def under (names : List String) (n : Node) (w : Way) : Way := { w.naming names n with first := n }

/-- A way behind another one. -/
def followedBy (w v : Way) : Way := ⟨w.captures ++ v.captures, w.first, v.last⟩

/-- `v` was under way when `w` ended, and holds what `w` names. -/
def outlasts (v w : Way) : Bool :=
  !w.last.precedes v.first && !v.last.precedes w.last && v.captures.holds w.captures

/-- `w` ends where `v` ends or before. -/
def endsNoLater (w v : Way) : Bool := !v.last.precedes w.last

/-- Ways that outlast each other once, the first of each. -/
def distinct : List Way → List Way
  | [] => []
  | w :: ws => w :: (distinct ws).filter fun v => !(w.outlasts v && v.outlasts w)

/-- **The ways that no other one outlasts.** -/
def settled (ws : List Way) : List Way :=
  distinct (ws.filter fun w => !ws.any fun v => v.outlasts w && !w.outlasts v)

end Way

/-! ## Ways of a shape -/

/-- One shape at some node, the others behind it.  A plain shape takes the first node it fits. -/
def waysFrom (isPlain : Bool) (here : Node → List Way) (others : Node → List Node → List Way) :
    List Node → List Way
  | [] => []
  | n :: rest =>
    (here n).flatMap (fun w => (others w.last rest).map w.followedBy) ++
      if isPlain && !(here n).isEmpty then [] else waysFrom isPlain here others rest

mutual

/-- **The ways in which a shape fits a node.** -/
def Shape.ways : Shape → Node → List Way
  | .node test field names children, n =>
    if (Shape.node test field names children).accepts n then
      (waysBelow children n n.children).map (·.under names n)
    else []

/-- The ways in which shapes fit some of the nodes in order, after a last node. -/
def waysBelow : List (List Shape) → Node → List Node → List Way
  | [], last, _ => [⟨[], last, last⟩]
  | options :: others, _, nodes => waysOfAny options (waysBelow others) nodes

/-- The ways of all options in turn. -/
def waysOfAny : List Shape → (Node → List Node → List Way) → List Node → List Way
  | [], _, _ => []
  | s :: ss, others, nodes =>
    waysFrom s.isPlain s.ways others nodes ++ waysOfAny ss others nodes

end

/-- **The ways at a node.**  A shape for any construct in which a certain node stands first is
searched for by that node: every such child gives ways of its own, the last one first. -/
def Shape.waysAt (s : Shape) (n : Node) : List Way :=
  match s with
  | .node .anyNamed none names ((option :: options) :: others) =>
    if option.test = .anyNamed then s.ways n
    else
      (n.children.reverse.flatMap fun c =>
        (option :: options).flatMap fun o =>
          (o.ways c).flatMap fun w =>
            (waysBelow others w.last (n.children.filter c.precedes)).map w.followedBy).map
        (·.naming names n)
  | _ => s.ways n

/-- The settled ways of a pattern at a node. -/
def Pattern.waysAt (p : Pattern) (n : Node) : List Way :=
  Way.settled (p.shapes.flatMap (·.waysAt n))

/-! ## Findings -/

/-- **A match of a query**: the node it is about, and every capture. -/
structure Finding where
  root : Node
  captures : Captures

namespace Query

/-- The match that captures give, when they name the main node. -/
def matchOf? (captures : Captures) : Option Finding :=
  (captures.reverse.lookup mainName).map fun root => ⟨root, captures⟩

/-- **Every match at and below a node**, in the order in which they end, outer ones first. -/
def findings (q : Query) (n : Node) : List Finding :=
  ((n.walk.flatMap fun m => q.patterns.flatMap (·.waysAt m)).mergeSort Way.endsNoLater).filterMap
    fun w => matchOf? w.captures

end Query

end ProbeWeaver
