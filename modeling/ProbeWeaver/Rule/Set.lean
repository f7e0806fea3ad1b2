import ProbeWeaver.Rule.Basic

/-!
# Rule/Set — rules combined

The members of `RuleSet.all` fire independently of one another.  `RuleSet.firstOf` is an ordered
choice: each main node goes to the first member that accepts it.  Rules are numbered in the order
in which they are listed, and matches are visited by place and number.
-/

namespace ProbeWeaver

/-- **Rules combined.** -/
inductive RuleSet where
  | single (rule : Rule)
  | all (sets : List RuleSet)
  | firstOf (rules : List Rule)

instance : Coe Rule RuleSet := ⟨.single⟩

/-- **A visit**: a match to be evaluated, with the number of its rule in the pass. -/
structure Visit where
  rule : Rule
  index : Nat
  found : Match

namespace RuleSet

mutual

/-- Every rule, in order. -/
def rules : RuleSet → List Rule
  | single rule => [rule]
  | all sets => rulesOfAll sets
  | firstOf rules => rules

/-- The rules of each set in turn. -/
def rulesOfAll : List RuleSet → List Rule
  | [] => []
  | s :: ss => s.rules ++ rulesOfAll ss

end

/-- Number of rules. -/
def length (s : RuleSet) : Nat := s.rules.length

/-- The visits of one rule, if it runs in the phase. -/
def visitsOf (u : SourceUnit) (phase : Phase) (rule : Rule) (index : Nat) :
    Except UnusableRule (List Visit) :=
  if rule.phase = phase then do
    return (← rule.matchesIn u).map fun m => ⟨rule, index, m⟩
  else .ok []

/-- Some visit is about the node. -/
def claims (taken : List Visit) (n : Node) : Bool := taken.any (·.found.root.sameAs n)

/-- The visits of rules in order of choice, where the main nodes in `taken` are gone. -/
def visitsOfFirst (u : SourceUnit) (phase : Phase) :
    List Visit → List Rule → Nat → Except UnusableRule (List Visit)
  | _, [], _ => .ok []
  | taken, rule :: rules, index => do
    let mine := (← visitsOf u phase rule index).filter fun v => !claims taken v.found.root
    return mine ++ (← visitsOfFirst u phase (taken ++ mine) rules (index + 1))

mutual

/-- **The visits of every rule that runs in the phase**, the first rule having number `base`. -/
def visits (u : SourceUnit) (phase : Phase) :
    RuleSet → Nat → Except UnusableRule (List Visit)
  | single rule, base => visitsOf u phase rule base
  | all sets, base => visitsOfAll u phase sets base
  | firstOf rules, base => visitsOfFirst u phase [] rules base

/-- The visits of each set in turn, numbered on from set to set. -/
def visitsOfAll (u : SourceUnit) (phase : Phase) :
    List RuleSet → Nat → Except UnusableRule (List Visit)
  | [], _ => .ok []
  | s :: ss, base => do
    return (← visits u phase s base) ++ (← visitsOfAll u phase ss (base + s.length))

end

end RuleSet

/-! ## The order of visits -/

/-- Whether a pass visits outer or inner nodes first. -/
inductive VisitOrder where
  | preOrder | postOrder
  deriving DecidableEq, Repr

/-- The name of an order. -/
def VisitOrder.name : VisitOrder → String
  | .preOrder => "PreOrder"
  | .postOrder => "PostOrder"

namespace Visit

/-- Outer nodes first: by start, then from the far end, then by rule. -/
def preOrderLe (a b : Visit) : Bool :=
  let s := a.found.root.span
  let t := b.found.root.span
  s.start < t.start || (s.start == t.start &&
    (t.stop < s.stop || (s.stop == t.stop && a.index ≤ b.index)))

/-- Inner nodes first: by end, then from the near start, then by rule. -/
def postOrderLe (a b : Visit) : Bool :=
  let s := a.found.root.span
  let t := b.found.root.span
  s.stop < t.stop || (s.stop == t.stop &&
    (t.start < s.start || (s.start == t.start && a.index ≤ b.index)))

end Visit

/-- **Visits in order**; those that compare equal stay as they are. -/
def VisitOrder.sort (order : VisitOrder) (vs : List Visit) : List Visit :=
  match order with
  | .preOrder => vs.mergeSort Visit.preOrderLe
  | .postOrder => vs.mergeSort Visit.postOrderLe

end ProbeWeaver
