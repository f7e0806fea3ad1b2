import ProbeWeaver.CommandLine.Command
import ProbeWeaver.Config.Load
import ProbeWeaver.Passes.Selection
import ProbeWeaver.Run.Pipeline
import ProbeWeaver.SourceScope
import ProbeWeaver.Text.LineDiff

/-!
# CommandLine/Session — commands carried out on a file tree

A session reads a file tree and leaves another one behind, with what it prints.  Its configuration
comes from a file or is the default one, then overrides are put in force, and then it has to be
valid.
-/

namespace ProbeWeaver.CommandLine

/-- **What a session sees**: the files, the place it was started from, and the parser for each
file. -/
structure Session where
  tree : FileTree
  here : Place
  parserOf : String → Parser

/-- What a session prints. -/
structure Printed where
  output : String := ""
  errors : String := ""
  deriving DecidableEq, Repr

/-- One text after the other. -/
def Printed.append (a b : Printed) : Printed := ⟨a.output ++ b.output, a.errors ++ b.errors⟩

instance : Append Printed := ⟨Printed.append⟩

/-- **What a session leaves behind.** -/
structure Outcome where
  status : Nat
  printed : Printed
  tree : FileTree

/-! ## Failures -/

/-- Why a command ends early. -/
inductive Failure where
  | config (cause : LoadError)
  | invalid (issues : List ConfigIssue)
  | scope (cause : ScopeError)
  | noSources (root : Place)
  | run (cause : RunError)
  deriving DecidableEq, Repr

namespace Failure

/-- The wording of a failure. -/
def message : Failure → String
  | .config cause => cause.message
  | .invalid issues => ConfigIssue.messageAll issues
  | .scope cause => cause.message
  | .noSources root => "No C sources found under " ++ root.path
  | .run cause => cause.message

/-- The causes of a failure, the nearest first. -/
def causes : Failure → List String
  | .config cause => cause.cause?.toList
  | .scope (.unresolved cause) => [cause.message]
  | .run (.rule _ cause) => [cause.message, cause.cause.message]
  | .run (.conflict _ _ _ cause) => [cause.message]
  | .run (.apply _ cause) => [cause.message]
  | _ => []

/-- A cause, its lines set in below the first. -/
def indented (first other : String) (cause : String) : String :=
  "\n" ++ first ++ ("\n" ++ other).intercalate (Text.splitAt cause '\n')

/-- The list of causes, numbered if there are several. -/
def causeList : List String → String
  | [] => ""
  | [cause] => "\n\nCaused by:" ++ indented "    " "    " cause
  | causes =>
    "\n\nCaused by:" ++ String.join (causes.mapIdx fun i cause =>
      indented ("    " ++ toString i ++ ": ") "       " cause)

/-- A failure as it is printed. -/
def render (f : Failure) : String := "Error: " ++ f.message ++ causeList f.causes ++ "\n"

end Failure

namespace Session

/-! ## Configuration and sources -/

/-- The configuration before overrides, whether valid or not. -/
def baseConfig (s : Session) (path : Option String) : Except Failure RunSettings :=
  match path with
  | none => .ok {}
  | some path =>
    match RunSettings.loadFile s.tree s.here path with
    | .ok config => .ok config
    | .error cause => .error (.config cause)

/-- **The configuration of a command.** -/
def settingsFor (s : Session) (path : Option String) (overrides : Overrides) :
    Except Failure RunSettings := do
  let config := overrides.apply (← s.baseConfig path)
  match config.issues with
  | [] => return config
  | issues => throw (.invalid issues)

/-- **The sources of a command**, and the scope that they lie in. -/
def sourcesFor (s : Session) (target : Target) :
    Except Failure (SourceScope × List Place) := do
  match SourceScope.ofRoot s.tree s.here (target.root.getD s.here.path) with
  | .error cause => throw (.scope cause)
  | .ok scope =>
    let scope := target.excluded.foldl (·.leavingOut s.tree ·) scope
    match scope.sources s.tree target.paths with
    | .error cause => throw (.scope cause)
    | .ok [] => throw (.noSources scope.root)
    | .ok sources => return (scope, sources)

/-- The paths that a command looks at when it starts in the directory `here`. -/
def pathsOf (here : Place) (target : Target) : List String :=
  let root := joinPath here.path (target.root.getD here.path)
  let belowRoot := SourceScope.historyName :: target.excluded ++ target.paths
  belowRoot.map (joinPath root) ++ target.config.toList.map (joinPath here.path)

/-- **The paths that arguments lead to** from the directory `here`. -/
def pathsOfArguments (here : Place) (args : List String) : List String :=
  match Invocation.ofArguments args with
  | .command (.run target _ _ _) | .command (.check target _ _) => pathsOf here target
  | _ => []

/-! ## Printing -/

/-- The path of a source as seen from the root. -/
def shownPath (root place : Place) : String :=
  if place.isWithin root then "/".intercalate (place.drop root.length) else place.path

/-- One line about a file. -/
def statusLine (shown : String) (dryRun : Bool) (file : FileSummary) : Printed :=
  match file.status with
  | .edited =>
    let verb := if dryRun then "Would rewrite " else "Rewrote "
    { output := "✓ " ++ verb ++ shown ++ " (" ++ toString file.edits ++ " edits)\n" }
  | .unchanged => { output := "⊙ " ++ shown ++ ": Unchanged\n" }
  | .abandoned cause => { errors := "✗ " ++ shown ++ ": Abandoned - " ++ cause.message ++ "\n" }
  | .writeFailed cause =>
    { errors := "✗ " ++ shown ++ ": Write failed - " ++ cause.message ++ "\n" }

/-- The lines about a file. -/
def fileLines (shown : String) (dryRun : Bool) (file : FileSummary) : Printed :=
  let skipped := "  ⊘ " ++ toString file.skipped ++ " match(es) skipped\n"
  let introduced := "  " ++ toString file.introduced ++ " syntax error(s) introduced\n"
  statusLine shown dryRun file ++
    ⟨if 0 < file.skipped then skipped else "", if 0 < file.introduced then introduced else ""⟩

/-- The comparison of an edited file with its source. -/
def fileDiff (file : FileSummary) : Printed :=
  match file.edited with
  | none => {}
  | some edited =>
    { output := "\n--- " ++ file.path ++ " (original)\n+++ " ++ file.path ++
        " (instrumented)\n" ++ Text.LineDiff.render file.source edited }

/-- The lines about every file. -/
def allFileLines (root : Place) (dryRun showsDiff : Bool) (sources : List Place)
    (files : List FileSummary) : Printed :=
  (sources.zip files).foldl
    (fun printed (place, file) =>
      printed ++ fileLines (shownPath root place) dryRun file ++
        (if showsDiff then fileDiff file else {}))
    {}

/-- The counts of a run. -/
def countLines (summary : RunSummary) : String :=
  let counts := summary.numbering.toList.map fun (c, n) => c.name ++ "=" ++ toString n
  "\nSummary:\n  " ++ toString summary.editedCount ++ " rewritten\n  " ++
    toString (summary.countOf .unchanged) ++ " unchanged\n  " ++
    toString summary.failureCount ++ " failed\n" ++
    (if counts.isEmpty then "" else "  markers: " ++ " ".intercalate counts ++ "\n")

/-- The root and the passes of a run. -/
def heading (root : Place) (passes : List String) : String :=
  "Root: " ++ root.path ++ "\nPasses: " ++ ", ".intercalate passes ++ "\n"

/-! ## Commands -/

/-- A command that ends early, after what it has printed. -/
def failed (tree : FileTree) (output : String) (f : Failure) : Outcome :=
  ⟨1, ⟨output, f.render⟩, tree⟩

/-- A command that has a summary. -/
def finished (tree : FileTree) (summary : RunSummary) (printed : Printed) : Outcome :=
  ⟨if summary.hasFailed then 1 else 0, printed, tree⟩

/-- The configuration, the scope and the sources of a command. -/
def resolve (s : Session) (target : Target) (overrides : Overrides) :
    Except Failure (RunSettings × SourceScope × List Place) := do
  let config ← s.settingsFor target.config overrides
  let (scope, sources) ← s.sourcesFor target
  return (config, scope, sources)

/-- Edits the sources. -/
def run (s : Session) (target : Target) (overrides : Overrides) (dryRun showsDiff : Bool) :
    Outcome :=
  match s.resolve target overrides with
  | .error f => failed s.tree "" f
  | .ok (config, scope, sources) =>
    let p := Pipeline.build config.selectedPasses config.validateOutput dryRun
    let start := heading scope.root p.passNames ++
      (if dryRun then "[DRY RUN - no files will be written]\n" else "") ++ "\n"
    let done := p.runPaths s.tree s.here s.parserOf (sources.map (·.path))
    match done.result with
    | .error e => failed done.tree start (.run e)
    | .ok summary =>
      finished done.tree summary <|
        { output := start } ++
          allFileLines scope.root dryRun showsDiff sources summary.files ++
          { output := countLines summary }

/-- Reports what editing the sources would do. -/
def check (s : Session) (target : Target) (overrides : Overrides) (asJson : Bool) : Outcome :=
  match s.resolve target overrides with
  | .error f => failed s.tree "" f
  | .ok (config, scope, sources) =>
    let p := Pipeline.build config.selectedPasses config.validateOutput true
    let done := p.runPaths s.tree s.here s.parserOf (sources.map (·.path))
    match done.result with
    | .error e => failed done.tree "" (.run e)
    | .ok summary =>
      finished done.tree summary <|
        if asJson then { output := summary.toJson.render ++ "\n" }
        else
          { output := "Instrumentation Check\n" ++ heading scope.root summary.passes ++ "\n" } ++
            allFileLines scope.root true false sources summary.files ++
            { output := countLines summary }

/-- A word filled up with blanks. -/
def padded (width : Nat) (word : String) : String :=
  word ++ String.ofList (List.replicate (width - word.length) ' ')

/-- The passes, modes and targets by name. -/
def catalog : String :=
  "Passes:\n" ++
    String.join (PassKind.all.map fun p =>
      "  " ++ padded 14 p.name ++ " " ++ p.description ++ "\n") ++
    "\nInstrument modes:\n" ++
    String.join (ProbeMode.all.map fun m => "  " ++ m.name ++ "\n") ++
    "\nMutation targets:\n" ++
    String.join (HookTarget.all.map fun t => "  " ++ t.name ++ "\n")

/-- The name and version of the program. -/
def version : String := "c-instrument 0.1.0\n"

/-- How the program is used. -/
def usage : String :=
  "Usage: c-instrument [--verbose] run|check PATH... [OPTION...]\n" ++
    "       c-instrument list\n       c-instrument --version\n"

/-- **Carries arguments out.** -/
def perform (s : Session) (args : List String) : Outcome :=
  match Invocation.ofArguments args with
  | .command (.run target overrides dryRun showsDiff) => s.run target overrides dryRun showsDiff
  | .command (.check target overrides asJson) => s.check target overrides asJson
  | .command .list => ⟨0, { output := catalog }, s.tree⟩
  | .version => ⟨0, { output := version }, s.tree⟩
  | .help => ⟨0, { output := usage }, s.tree⟩
  | .misuse => ⟨2, { errors := usage }, s.tree⟩

end Session

end ProbeWeaver.CommandLine
