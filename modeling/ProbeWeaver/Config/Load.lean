import ProbeWeaver.Config.Decode
import ProbeWeaver.FileTree.Basic
import ProbeWeaver.Toml.Document

/-!
# Config/Load — configurations from texts and files

A configuration that is loaded is a valid one.
-/

namespace ProbeWeaver

/-- Why a configuration cannot be loaded; the path is that of the file it was to come from. -/
inductive LoadError where
  | unreadable (path : String) (cause : ReadError)
  | malformed (path : Option String)
  | invalid (path : Option String) (issues : List ConfigIssue)
  deriving DecidableEq, Repr

namespace LoadError

/-- A path in parentheses. -/
def origin : Option String → String
  | some path => " (" ++ path ++ ")"
  | none => ""

/-- The wording of an error. -/
def message : LoadError → String
  | .unreadable path cause =>
    "failed to read run config from " ++ path ++ ": " ++ cause.message
  | .malformed path => "failed to parse run config TOML" ++ origin path
  | .invalid path issues =>
    "invalid run config" ++ origin path ++ ": " ++ ConfigIssue.messageAll issues

/-- The cause of an error, by its own wording. -/
def cause? : LoadError → Option String
  | .unreadable _ cause => some cause.message
  | .malformed _ => none
  | .invalid _ issues => some (ConfigIssue.messageAll issues)

end LoadError

namespace RunSettings

/-- The configuration that a text spells, whether valid or not. -/
def ofText? (text : String) : Option RunSettings := do ofTable? (← Toml.read? text)

/-- **Loads a configuration** from a text, which may come from a file. -/
def load (path : Option String) (text : String) : Except LoadError RunSettings :=
  match ofText? text with
  | none => .error (.malformed path)
  | some config =>
    match config.issues with
    | [] => .ok config
    | issues => .error (.invalid path issues)

/-- Loads the configuration from the file at a path. -/
def loadFile (tree : FileTree) (here : Place) (path : String) : Except LoadError RunSettings :=
  match tree.readText here path with
  | .error cause => .error (.unreadable path cause)
  | .ok text => load (some path) text

end RunSettings

end ProbeWeaver
