import ProbeWeaver.Rule.Set
import ProbeWeaver.Text.Quoted

/-!
# Rule/Pass — rule sets run as one traversal

A `Pass` is a list of rule sets with an order of visits.  Its rules are numbered on from set to set.
-/

namespace ProbeWeaver

/-- **A pass.** -/
structure Pass where
  name : String
  sets : List RuleSet := []
  order : VisitOrder := .preOrder
  /-- statements are put before existing ones, so every body has to be a block -/
  anchorsStatements : Bool := false
  /-- bodies that are no blocks become blocks -/
  canonicalizesBraces : Bool := false

namespace Pass

/-- Number of rules. -/
def numberOfRules (p : Pass) : Nat := (p.sets.flatMap (·.rules)).length

/-- The visits of every set in turn, numbered on from set to set. -/
def visitsFrom (u : SourceUnit) (phase : Phase) :
    List RuleSet → Nat → Except UnusableRule (List Visit)
  | [], _ => .ok []
  | s :: ss, base => do
    return (← s.visits u phase base) ++ (← visitsFrom u phase ss (base + s.length))

/-- **The visits of a pass in a file**, in its order. -/
def visits (p : Pass) (u : SourceUnit) (phase : Phase) :
    Except UnusableRule (List Visit) := do
  return p.order.sort (← visitsFrom u phase p.sets 0)

/-- A one-line description: name, number of rules and order. -/
def describe (p : Pass) : String :=
  "Pass \x7b name: " ++ Text.quoted p.name ++ ", rules: " ++ toString p.numberOfRules ++
    ", order: " ++ p.order.name ++ " \x7d"

end Pass

end ProbeWeaver
