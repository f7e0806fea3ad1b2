import ProbeWeaver.FileTree.Replace
import ProbeWeaver.Marker.Numbering
import ProbeWeaver.Text.Json
import ProbeWeaver.SourceUnit

/-!
# Run/Summary — what became of each file

A summary lists the files of a run in the order in which they were given.
-/

namespace ProbeWeaver

/-- Why a file takes no part in a run. -/
inductive AbandonCause where
  | unreadable (cause : ReadError)
  | malformed (cause : SyntaxError)
  deriving DecidableEq, Repr

/-- The wording of a cause. -/
def AbandonCause.message : AbandonCause → String
  | .unreadable cause => cause.message
  | .malformed cause => cause.message

/-- **The outcome for one file.** -/
inductive FileVerdict where
  | edited
  | unchanged
  | abandoned (cause : AbandonCause)
  | writeFailed (cause : WriteError)
  deriving DecidableEq, Repr

/-- The name of an outcome. -/
def FileVerdict.name : FileVerdict → String
  | .edited => "rewritten"
  | .unchanged => "unchanged"
  | .abandoned _ => "abandoned"
  | .writeFailed _ => "write_failed"

/-- Why the file did not get through the run. -/
def FileVerdict.reason? : FileVerdict → Option String
  | .abandoned cause => some cause.message
  | .writeFailed cause => some cause.message
  | _ => none

/-- The file did not get through the run. -/
def FileVerdict.isFailed : FileVerdict → Bool
  | .abandoned _ | .writeFailed _ => true
  | _ => false

/-- **What a run did to one file.**  The text after the run is kept when it differs. -/
structure FileSummary where
  path : String
  status : FileVerdict
  edits : Nat := 0
  skipped : Nat := 0
  introduced : Nat := 0
  source : String
  edited : Option String := none
  deriving DecidableEq, Repr

namespace FileSummary

/-- The text of the file after the run. -/
def output (summary : FileSummary) : String := summary.edited.getD summary.source

/-- One line about the file. -/
def describe (summary : FileSummary) : String :=
  match summary.status with
  | .edited => "Rewrote " ++ summary.path ++ " (" ++ toString summary.edits ++ " edits)"
  | .unchanged => "Unchanged " ++ summary.path
  | .abandoned cause => "Abandoned " ++ summary.path ++ ": " ++ cause.message
  | .writeFailed cause => "Write failed on " ++ summary.path ++ ": " ++ cause.message

end FileSummary

/-- **What a run did**: its files, the numbers it handed out, and its passes. -/
structure RunSummary where
  files : List FileSummary
  numbering : Numbering
  passes : List String
  deriving DecidableEq, Repr

namespace RunSummary

/-- Some file did not get through the run. -/
def hasFailed (summary : RunSummary) : Bool := summary.files.any (·.status.isFailed)

/-- Number of files with an outcome. -/
def countOf (summary : RunSummary) (verdict : FileVerdict) : Nat :=
  (summary.files.filter (·.status == verdict)).length

/-- Number of edited files. -/
def editedCount (summary : RunSummary) : Nat := summary.countOf .edited

/-- Number of files that did not get through. -/
def failureCount (summary : RunSummary) : Nat := (summary.files.filter (·.status.isFailed)).length

end RunSummary

/-! ## Summaries as data -/

/-- A file's part of a summary; the texts are left out. -/
def FileSummary.toJson (summary : FileSummary) : Text.Json :=
  .object <|
    [("path", .string summary.path), ("status", .string summary.status.name)] ++
    (summary.status.reason?.map fun reason => ("reason", Text.Json.string reason)).toList ++
    [("edits", .number summary.edits), ("skipped_matches", .number summary.skipped),
      ("introduced_errors", .number summary.introduced)]

/-- Counts by the names of their categories. -/
def Numbering.toJson (numbering : Numbering) : Text.Json :=
  .object [("values", .object (numbering.toList.map fun (c, n) => (c.name, .number n)))]

/-- **A summary as data.** -/
def RunSummary.toJson (summary : RunSummary) : Text.Json :=
  .object [("files", .array (summary.files.map (·.toJson))), ("counters", summary.numbering.toJson),
    ("passes", .array (summary.passes.map .string))]

end ProbeWeaver
