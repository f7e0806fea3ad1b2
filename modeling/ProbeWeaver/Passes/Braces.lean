import ProbeWeaver.Passes.Condition

/-!
# Passes/Braces — every controlled statement becomes a block

The body of an `if`, an `else` or a loop and the first statement after a switch label are wrapped
in braces unless they are blocks.  Passes that put statements before existing ones rely on it: what
they insert before a body has to end up inside it.
-/

namespace ProbeWeaver.Braces

/-- What stands before a wrapped statement. -/
def opening : String := "\x7b\n"

/-- What stands after it. -/
def closing : String := "\n\x7d"

/-- The statement is no block. -/
def isUnbraced : Filter := fun m _ =>
  match m.node? "stmt" with
  | some stmt => stmt.kind != .compoundStatement
  | none => false

/-- A rule that wraps the statement it names. -/
def wrapping (r : Rule) : Rule :=
  r.filter Condition.isSpelledInFile
    |>.filter isUnbraced
    |>.writeBefore "stmt" (.literal opening)
    |>.writeAfter "stmt" (.literal closing)

/-- The statement that an `else` governs. -/
def elseBranch : Finder := fun m _ => m.root.elseBranch?

/-- The first statement after a label. -/
def labelled : Finder := fun m _ =>
  m.root.namedChildren.find? fun c => c.isStatement && !m.root.fillsField .value c

/-- Statements under `if`. -/
def thenRule : Rule :=
  wrapping <| .ofPattern "braces-if-then" <|
    (Pattern.construct .ifStatement [.field .consequence (Pattern.any.capture "stmt")]).capture
      "root"

/-- Statements under `else`. -/
def elseRule : Rule :=
  wrapping <| (Rule.ofPattern "braces-if-else" <|
    (Pattern.construct .ifStatement [.field .alternative .any]).capture "root").bind "stmt"
      elseBranch

/-- A loop whose body is named. -/
def loopPattern (k : Kind) : Pattern :=
  .construct k [.field .body (Pattern.any.capture "stmt")]

/-- Bodies of loops. -/
def loopRule : Rule :=
  wrapping <| .ofPattern "braces-loop" <|
    (Pattern.choice [loopPattern .forStatement, loopPattern .whileStatement,
      loopPattern .doStatement]).capture "root"

/-- Statements after labels; one kind of node stands for `case` and `default`. -/
def labelSet : RuleSet :=
  .firstOf [
    wrapping <| (Rule.ofPattern "braces-case" <|
      (Pattern.construct .caseStatement [.field .value .any]).capture "root").bind "stmt"
        labelled,
    wrapping <| (Rule.ofPattern "braces-default" <|
      (Pattern.construct .caseStatement []).capture "root").bind "stmt" labelled]

/-- **The braces pass.** -/
def pass : Pass :=
  { name := "braces"
    sets := [.all [thenRule, elseRule, loopRule, labelSet]]
    canonicalizesBraces := true }

end ProbeWeaver.Braces
