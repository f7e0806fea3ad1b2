import ProbeWeaver.Config.Settings
import ProbeWeaver.Passes.Condition
import ProbeWeaver.Typing.Literal

/-!
# Passes/Hooks — mutation hooks around expressions

The mutate pass wraps each target expression as `((<expression>) _TAG<n>)` and defines every hook
of a file as empty, so the program behaves as before until a hook is defined otherwise.  Inner
expressions are visited first: they take the smaller numbers and their closers come first, which
keeps nested wraps balanced.
-/

namespace ProbeWeaver.Hooks

/-- A kind of hook: its numbers and its name. -/
structure Hook where
  category : Category
  tag : String
  deriving DecidableEq, Repr

/-- Hooks on array indices. -/
def arrayHook : Hook := ⟨.mutArr, "_MUTARR"⟩

/-- Hooks on pointers. -/
def pointerHook : Hook := ⟨.mutPtr, "_MUTPTR"⟩

/-- Hooks on left operands. -/
def leftHook : Hook := ⟨.intOpL, "_INTOPL"⟩

/-- Hooks on right operands. -/
def rightHook : Hook := ⟨.intOpR, "_INTOPR"⟩

/-- **Every hook**, in the order of definitions. -/
def all : List Hook := [arrayHook, pointerHook, leftHook, rightHook]

/-! ## Texts -/

/-- What stands before a hooked expression. -/
def opener : String := "(("

/-- The closer of a hook up to its number. -/
def closerStem (h : Hook) : String := ") " ++ h.tag

/-- What stands after a hooked expression. -/
def closer (h : Hook) : EditText := fun _ _ => do
  let id ← draw h.category
  return some (closerStem h ++ toString id ++ ")")

/-- The number that characters start with, below `2^32`. -/
def leadingNumber? (cs : List Char) : Option Nat :=
  Text.unsigned? 10 (Text.wordLimit 32) (cs.takeWhile Char.isDigit)

/-- The numbers that follow occurrences of a stem in accepted texts, in order. -/
def numbersAfter (accepted : EditSet) (stem : String) : List Nat :=
  accepted.entries.flatMap fun e =>
    (Text.restsAfter stem.toList 0 e.text.toList).filterMap leadingNumber?

/-- The definitions of a hook's numbers in use, ascending and once each. -/
def definitionsOf (accepted : EditSet) (h : Hook) : List String :=
  let numbers := (numbersAfter accepted (closerStem h)).mergeSort (· ≤ ·)
  numbers.eraseReps.map fun n => "#define " ++ h.tag ++ toString n ++ " \n"

/-- Empty definitions of the hooks in use. -/
def definitions : EditText := fun cx _ => do
  let lines := all.flatMap (definitionsOf cx.accepted)
  if lines.isEmpty then return none else return some (String.join lines)

/-! ## Rules -/

/-- A rule that wraps a named expression. -/
def wrapping (r : Rule) (name : String) (h : Hook) : Rule :=
  (r.writeBefore name (.literal opener)).writeAfter name (closer h)

/-- The base of the subscript holds a name. -/
def hasNamedBase : Filter := fun m _ =>
  match m.node? "base" with
  | some base => !base.identifiers.isEmpty
  | none => false

/-- Indices of outermost subscripts. -/
def arrayIndexRule : Rule :=
  wrapping ((Rule.ofPattern "mutate-array-index"
    ((Pattern.construct .subscriptExpression
      [.field .argument (Pattern.any.capture "base"),
        .field .index (Pattern.any.capture "index")]).capture "root"))
    |>.filter Condition.isSpelledInFile
    |>.filter Condition.isOutermostSubscript
    |>.filter Condition.outsideMain
    |>.filter Condition.notUnderDeclaration
    |>.filter hasNamedBase) "index" arrayHook

/-- Nothing is stepped around the expression. -/
def isUnstepped : Filter := fun m u =>
  !m.root.isUnderOperator u.source "++" && !m.root.isUnderOperator u.source "--"

/-- The pattern of an expression with one argument. -/
def targetPattern (k : Kind) : Pattern :=
  (Pattern.construct k [.field .argument (Pattern.any.capture "target")]).capture "root"

/-- Pointers that are dereferenced or whose members are used. -/
def pointerSet : RuleSet :=
  .firstOf [
    wrapping ((Rule.ofPattern "mutate-pointer-deref" (targetPattern .pointerExpression))
      |>.bind "stmt" Condition.slotAround
      |>.filter Condition.isSpelledInFile
      |>.filter Condition.outsideMain
      |>.filter Condition.notUnderDeclaration
      |>.filter Condition.isDereference
      |>.filter isUnstepped) "target" pointerHook,
    wrapping ((Rule.ofPattern "mutate-pointer-member" (targetPattern .fieldExpression))
      |>.bind "stmt" Condition.slotAround
      |>.filter Condition.isSpelledInFile
      |>.filter Condition.outsideMain
      |>.filter Condition.notUnderDeclaration) "target" pointerHook]

/-- The operators whose operands are hooked. -/
def integerOperators : List String := ["+", "-", "*", "/", "<<", ">>", "%"]

/-- The operator of the expression is one of those. -/
def hasIntegerOperator : Filter := fun m u =>
  match u.operator? m.root with
  | some op => integerOperators.contains op
  | none => false

/-- Both operands of arithmetic. -/
def integerRule : Rule :=
  wrapping (wrapping ((Rule.ofPattern "mutate-integer"
    ((Pattern.construct .binaryExpression
      [.field .left (Pattern.any.capture "left"),
        .field .right (Pattern.any.capture "right")]).capture "root"))
    |>.filter Condition.isSpelledInFile
    |>.filter hasIntegerOperator
    |>.filter Condition.notLoopClause) "left" leftHook) "right" rightHook

/-- Definitions, once every hook is in place. -/
def definitionRule : Rule :=
  (Rule.ofPattern "mutate-macros" Condition.wholeFile)
    |>.writeAtStart definitions
    |>.lately

/-- The rules of a target. -/
def targetSet : HookTarget → RuleSet
  | .arrayIndex => .single arrayIndexRule
  | .pointer => pointerSet
  | .integer => .single integerRule

/-- **The mutate pass.** -/
def pass (targets : List HookTarget) : Pass :=
  { name := "mutate"
    sets := (HookTarget.all.filter targets.contains).map targetSet ++ [.single definitionRule]
    order := .postOrder }

end ProbeWeaver.Hooks
