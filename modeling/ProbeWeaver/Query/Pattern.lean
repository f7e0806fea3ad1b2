import ProbeWeaver.Tree.Basic

/-!
# Query/Pattern — patterns over syntax trees

A pattern says what a node must be and what must stand below it; captures name the nodes it finds.
Child patterns match children in order, with any others in between.  What a pattern asks of single
nodes is its list of shapes (`Pattern.shapes`): one for each alternative, with fields and names
handed down to the node that they are about.
-/

namespace ProbeWeaver

/-- What a pattern asks of a node itself. -/
inductive NodeTest where
  | anyNamed
  | kind (kind : Kind)
  deriving DecidableEq, Repr

/-- The node passes. -/
def NodeTest.accepts : NodeTest → Node → Bool
  | .anyNamed, n => n.isNamed
  | .kind k, n => n.kind == k

/-- **A pattern.** -/
inductive Pattern where
  | node (test : NodeTest) (children : List Pattern)
  | choice (options : List Pattern)
  | field (label : Field) (inner : Pattern)
  | capture (inner : Pattern) (name : String)
  deriving Repr

namespace Pattern

/-- Any construct. -/
def any : Pattern := .node .anyNamed []

/-- A construct with the given patterns below it. -/
def construct (k : Kind) (children : List Pattern) : Pattern := .node (.kind k) children

mutual

/-- The names that a pattern captures. -/
def names : Pattern → List String
  | .node _ children => namesAll children
  | .choice options => namesAll options
  | .field _ inner => inner.names
  | .capture inner name => name :: inner.names

/-- The names that patterns capture. -/
def namesAll : List Pattern → List String
  | [] => []
  | p :: ps => p.names ++ namesAll ps

end

end Pattern

/-! ## Shapes -/

/-- **A node asked for**: what it is, the field it fills, the names it gets, and what stands below
it, in each place one of several shapes. -/
inductive Shape where
  | node (test : NodeTest) (field : Option Field) (names : List String)
      (children : List (List Shape))
  deriving Repr

namespace Shape

/-- What the shape asks of the node itself. -/
def test : Shape → NodeTest
  | node test _ _ _ => test

/-- The most names that one node gets. -/
def maxNames : Nat := 3

/-- The shape in a field; an outer field counts and an inner one does not. -/
def filling (f : Field) : Shape → Shape
  | node test _ names children => node test (some f) names children

/-- The shape with one more name, if it has room for it. -/
def named (name : String) : Shape → Shape
  | node test field names children =>
    node test field (if names.length < maxNames then names ++ [name] else names) children

/-- The node itself passes. -/
def accepts : Shape → Node → Bool
  | node test field _ _, n => test.accepts n && (field.isNone || n.tree.field == field)

/-- Nothing is named and nothing asked for below, so that the first fitting node is as good as any
other. -/
def isPlain : Shape → Bool
  | node _ _ names children => names.isEmpty && children.isEmpty

end Shape

namespace Pattern

mutual

/-- **The shapes of a pattern**, one for each alternative. -/
def shapes : Pattern → List Shape
  | .node test children => [.node test none [] (shapesEach children)]
  | .choice options => shapesOfAny options
  | .field f inner => inner.shapes.map (·.filling f)
  | .capture inner name => inner.shapes.map (·.named name)

/-- The shapes of each pattern in turn. -/
def shapesEach : List Pattern → List (List Shape)
  | [] => []
  | p :: ps => p.shapes :: shapesEach ps

/-- The shapes of all options.  Alternatives inside an option stand for their first one, except
inside the last option. -/
def shapesOfAny : List Pattern → List Shape
  | [] => []
  | [p] => p.shapes
  | p :: ps => p.shapes.take 1 ++ shapesOfAny ps

end

end Pattern

/-- **A query**: patterns that are searched for one beside the other. -/
structure Query where
  patterns : List Pattern
  deriving Repr

namespace Query

/-- The name that the main node of a match has. -/
def mainName : String := "root"

/-- The query of one pattern. -/
def ofPattern (p : Pattern) : Query := ⟨[p]⟩

/-- The names that a query captures. -/
def names (q : Query) : List String := Pattern.namesAll q.patterns

/-- The query names the main node of its matches. -/
def capturesRoot (q : Query) : Bool := q.names.contains mainName

end Query

end ProbeWeaver
