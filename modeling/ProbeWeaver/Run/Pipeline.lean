import ProbeWeaver.Passes.Braces
import ProbeWeaver.Run.Stage
import ProbeWeaver.Run.Summary

/-!
# Run/Pipeline — passes run over files

A run parses every file once and then takes its passes in order.  All passes add to one `EditSet`
for each file and see the tree as it was parsed; the edits are carried out when the last pass is
over, so a run that fails leaves no text behind.

* `Pipeline.perform` — a run over texts; `Pipeline.runPaths` — a run over a file tree.
-/

namespace ProbeWeaver

/-- What reads a text into a syntax tree. -/
abbrev Parser := String → Tree

/-- **One file given to a run**: its text, if it could be read, and the parser for it. -/
structure SourceFile where
  path : String
  text : Except ReadError String
  parse : Parser

/-- Why a run fails. -/
inductive RunError where
  | invalidTransition (start target : RunStage)
  | rule (passName : String) (cause : UnusableRule)
  | conflict (file passName ruleName : String) (cause : Conflict)
  | apply (file : String) (cause : EditFault)
  deriving DecidableEq, Repr

/-- The wording of a run's failure. -/
def RunError.message : RunError → String
  | .invalidTransition start target =>
    "invalid run state transition " ++ start.name ++ " -> " ++ target.name
  | .rule passName cause => "pass " ++ passName ++ ": " ++ cause.message
  | .conflict file passName ruleName cause =>
    file ++ ": pass " ++ passName ++ ", rule " ++ ruleName ++ ": " ++ cause.message
  | .apply file cause => file ++ ": " ++ cause.message

/-! ## One file in a run -/

/-- **A parsed file** with the edits accepted for it and the number of matches that failed. -/
structure ParsedFile where
  unit : SourceUnit
  parse : Parser
  edits : EditSet := {}
  skipped : Nat := 0

/-- A file in a run: parsed, or left out of it. -/
inductive FileSlot where
  | parsed (file : ParsedFile)
  | abandoned (path source : String) (cause : AbandonCause)

/-- The slot of a file. -/
def SourceFile.slot (source : SourceFile) : FileSlot :=
  match source.text with
  | .error cause => .abandoned source.path "" (.unreadable cause)
  | .ok text =>
    match SourceUnit.ofTree? source.path text (source.parse text) with
    | .ok unit => .parsed { unit, parse := source.parse }
    | .error cause => .abandoned source.path text (.malformed cause)

namespace ParsedFile

/-- The file after a match that failed. -/
def skip (file : ParsedFile) : ParsedFile := { file with skipped := file.skipped + 1 }

/-- The edits of one match, added in turn. -/
def addAll (source : String) : EditSet → List Edit → Except Conflict EditSet
  | set, [] => .ok set
  | set, e :: edits => do addAll source (← set.add source e) edits

/-- **Evaluates matches in turn.**  One that fails is skipped and hands its numbers back; edits
that cannot be reconciled end the run. -/
def visitAll (pass : Pass) :
    ParsedFile → Numbering → List Visit → Except RunError (ParsedFile × Numbering)
  | file, numbering, [] => .ok (file, numbering)
  | file, numbering, v :: vs =>
    match (v.rule.editsOf ⟨file.unit, file.edits⟩ v.found).run numbering with
    | .error _ => visitAll pass file.skip numbering vs
    | .ok (edits, numbering) =>
      match addAll file.unit.source file.edits edits with
      | .ok edits => visitAll pass { file with edits } numbering vs
      | .error cause => .error (.conflict file.unit.path pass.name v.rule.name cause)

/-- The rules of a pass that run in the phase. -/
def runOn (pass : Pass) (phase : Phase) (file : ParsedFile) (numbering : Numbering) :
    Except RunError (ParsedFile × Numbering) :=
  match pass.visits file.unit phase with
  | .ok vs => visitAll pass file numbering vs
  | .error cause => .error (.rule pass.name cause)

/-- Number of syntax errors that the edited text has and the source had not. -/
def introducedCount (file : ParsedFile) (edited : String) : Nat :=
  (introducedFaults (syntaxFaults file.unit.source file.unit.root.tree)
    (syntaxFaults edited (file.parse edited))).length

/-- **The summary of a file** once its edits are complete. -/
def finish (validateOutput : Bool) (file : ParsedFile) : Except RunError FileSummary :=
  let source := file.unit.source
  match file.edits.apply source with
  | .error cause => .error (.apply file.unit.path cause)
  | .ok edited =>
    let changed := edited ≠ source
    .ok {
      path := file.unit.path
      status := if changed then .edited else .unchanged
      edits := file.edits.length
      skipped := file.skipped
      introduced := if validateOutput ∧ changed then file.introducedCount edited else 0
      source
      edited := if changed then some edited else none }

end ParsedFile

namespace FileSlot

/-- One phase of a pass over each file in turn. -/
def runOnAt (pass : Pass) (phase : Phase) :
    List FileSlot → Numbering → Except RunError (List FileSlot × Numbering)
  | [], numbering => .ok ([], numbering)
  | .abandoned path source cause :: slots, numbering => do
    let (slots, numbering) ← runOnAt pass phase slots numbering
    return (.abandoned path source cause :: slots, numbering)
  | .parsed file :: slots, numbering => do
    let (file, numbering) ← file.runOn pass phase numbering
    let (slots, numbering) ← runOnAt pass phase slots numbering
    return (.parsed file :: slots, numbering)

/-- **One pass over all files**: its rules in each file, and then its late rules. -/
def runOn (pass : Pass) (slots : List FileSlot) (numbering : Numbering) :
    Except RunError (List FileSlot × Numbering) := do
  let (slots, numbering) ← runOnAt pass .traversal slots numbering
  runOnAt pass .late slots numbering

/-- The summary of a file. -/
def finish (validateOutput : Bool) : FileSlot → Except RunError FileSummary
  | .parsed file => file.finish validateOutput
  | .abandoned path source cause => .ok { path, status := .abandoned cause, source }

/-- The summaries of files in turn. -/
def finishAll (validateOutput : Bool) : List FileSlot → Except RunError (List FileSummary)
  | [] => .ok []
  | slot :: slots => do
    return (← slot.finish validateOutput) :: (← finishAll validateOutput slots)

end FileSlot

/-! ## The run -/

/-- A step of a run; the stage of one that fails is kept. -/
abbrev RunM := ExceptT RunError (StateM RunStage)

namespace RunM

/-- Goes on to a stage. -/
def advance (target : RunStage) : RunM Unit := do
  let start ← get
  if start.allowsNext target then set target else throw (.invalidTransition start target)

/-- The value of a result, whose failure is the failure of the run. -/
def orFail {α : Type} (result : Except RunError α) : RunM α := do
  match result with
  | .ok a => return a
  | .error e =>
    unless (← get).isOver do set RunStage.failed
    throw e

/-- The passes from a number on. -/
def passesFrom : Nat → List Pass → List FileSlot → Numbering → RunM (List FileSlot × Numbering)
  | _, [], slots, numbering => return (slots, numbering)
  | i, pass :: passes, slots, numbering => do
    advance (.pass i)
    let (slots, numbering) ← orFail (FileSlot.runOn pass slots numbering)
    passesFrom (i + 1) passes slots numbering

end RunM

/-- **Passes to run over files**, and how. -/
structure Pipeline where
  passes : List Pass
  validateOutput : Bool := false
  dryRun : Bool := false
  stage : RunStage := .idle

namespace Pipeline

/-- Some pass puts statements before existing ones while no earlier one, nor that one itself, makes
bodies blocks. -/
def needsBraces : List Pass → Bool
  | [] => false
  | p :: ps => if p.canonicalizesBraces then false else p.anchorsStatements || needsBraces ps

/-- **The pipeline of passes.**  The braces pass is put in front if statements would be put before
bodies that are no blocks. -/
def build (passes : List Pass) (validateOutput dryRun : Bool) : Pipeline :=
  { passes := if needsBraces passes then Braces.pass :: passes else passes
    validateOutput
    dryRun }

/-- The names of the passes. -/
def passNames (p : Pipeline) : List String := p.passes.map (·.name)

/-- The steps of a run from its start. -/
def steps (p : Pipeline) (files : List SourceFile) : RunM RunSummary := do
  RunM.advance .parsing
  let (slots, numbering) ← RunM.passesFrom 0 p.passes (files.map (·.slot)) {}
  RunM.advance .applying
  let summaries ← RunM.orFail (FileSlot.finishAll p.validateOutput slots)
  RunM.advance .done
  return ⟨summaries, numbering, p.passNames⟩

/-- **Runs over texts.**  Each run starts anew. -/
def perform (p : Pipeline) (files : List SourceFile) : Except RunError RunSummary × Pipeline :=
  let (result, stage) := ((p.steps files).run).run .idle
  (result, { p with stage })

/-! ## Runs over a file tree -/

/-- Writes an edited file back; a failure is noted in its summary. -/
def save (tree : FileTree) (here : Place) (summary : FileSummary) : FileSummary × FileTree :=
  match summary.edited with
  | none => (summary, tree)
  | some text =>
    match tree.replaceFile here summary.path (.of summary.source) text with
    | .ok (.written _, tree) => (summary, tree)
    | .ok (.unchanged, tree) => ({ summary with status := .unchanged }, tree)
    | .error cause => ({ summary with status := .writeFailed cause }, tree)

/-- Writes each edited file back in turn. -/
def saveAll (here : Place) : FileTree → List FileSummary → List FileSummary × FileTree
  | tree, [] => ([], tree)
  | tree, summary :: summaries =>
    let (summary, tree) := save tree here summary
    let (summaries, tree) := saveAll here tree summaries
    (summary :: summaries, tree)

/-- What a run over a file tree leaves behind. -/
structure FileOutcome where
  result : Except RunError RunSummary
  pipeline : Pipeline
  tree : FileTree

/-- **Runs over the files at paths**, seen from `here`, and writes the results back unless the run
is dry. -/
def runPaths (p : Pipeline) (tree : FileTree) (here : Place) (parserOf : String → Parser)
    (paths : List String) : FileOutcome :=
  let files := paths.map fun path => ⟨path, tree.readText here path, parserOf path⟩
  match p.perform files with
  | (.error e, p) => ⟨.error e, p, tree⟩
  | (.ok summary, p) =>
    if p.dryRun then ⟨.ok summary, p, tree⟩
    else
      let (summaries, tree) := saveAll here tree summary.files
      ⟨.ok { summary with files := summaries }, p, tree⟩

end Pipeline

end ProbeWeaver
