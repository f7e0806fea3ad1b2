import ProbeWeaver.Query.Grammar
import ProbeWeaver.Query.Pattern

/-!
# Query/Parts — patterns that the C grammar rules out

A construct that is one token has nothing below it, and a part fills no field but the construct's
own.  A pattern that asks for more finds nothing in any tree, and a query that holds it is refused.
-/

namespace ProbeWeaver

mutual

/-- A node that matches the pattern can fill one of these fields, or needs to fill none; of
alternatives one is enough. -/
def Pattern.fillsOneOf (labels : List String) : Pattern → Bool
  | .node _ _ => true
  | .choice options => Pattern.anyFillsOneOf labels options
  | .field label _ => labels.contains label.spelling
  | .capture inner _ => inner.fillsOneOf labels

/-- One of the patterns fills one of these fields. -/
def Pattern.anyFillsOneOf (labels : List String) : List Pattern → Bool
  | [] => false
  | p :: ps => p.fillsOneOf labels || Pattern.anyFillsOneOf labels ps

end

/-- **The patterns can stand below a node that passes the test.**  Nothing is ruled out where any
construct passes. -/
def NodeTest.canHold (test : NodeTest) (children : List Pattern) : Bool :=
  match test with
  | .anyNamed => true
  | .kind k =>
    children.isEmpty ||
      (!Grammar.leaves.contains k.name &&
        match Grammar.partFields.lookup k.name with
        | none => true
        | some labels => children.all (·.fillsOneOf labels))

end ProbeWeaver
