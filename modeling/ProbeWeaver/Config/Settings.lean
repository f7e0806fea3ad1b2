/-!
# Config/Settings — what a run is told to do

A `RunSettings` selects passes and sets their options.  `RunSettings.issues` lists everything that
is wrong with one; a configuration is valid when nothing is.
-/

namespace ProbeWeaver

/-- A word that names nothing of its sort. -/
structure UnknownName where
  sort : String
  word : String
  deriving DecidableEq, Repr

/-- The wording of an unknown name. -/
def UnknownName.message (e : UnknownName) : String := "unknown " ++ e.sort ++ " '" ++ e.word ++ "'"

/-- **The passes** that a run may be made of. -/
inductive PassKind where
  | braces | instrument | mutate | stackToHeap
  deriving DecidableEq, Repr

namespace PassKind

/-- Every pass. -/
def all : List PassKind := [.braces, .instrument, .mutate, .stackToHeap]

/-- The name of a pass. -/
def name : PassKind → String
  | .braces => "braces"
  | .instrument => "instrument"
  | .mutate => "mutate"
  | .stackToHeap => "stack-to-heap"

/-- The pass of a name. -/
def ofName (s : String) : Except UnknownName PassKind :=
  match all.find? (·.name == s) with
  | some found => .ok found
  | none => .error ⟨"pass", s⟩

/-- What a pass does, in one line. -/
def description : PassKind → String
  | .braces => "wrap unbraced if/else/loop/switch-label bodies in blocks"
  | .instrument => "declaration, entry, site and value-flow logging probes"
  | .mutate => "macro-guarded mutation hooks on indices, pointers and integer operands"
  | .stackToHeap => "relocate local arrays to the heap behind MUT_ shadows"

end PassKind

/-- **The values** that the instrument pass may follow. -/
inductive ProbeMode where
  | arrayIndex | pointerIndex | arrayPointerIndex | memory | pointer | integer | divider | init
  deriving DecidableEq, Repr

namespace ProbeMode

/-- Every mode. -/
def all : List ProbeMode :=
  [.arrayIndex, .pointerIndex, .arrayPointerIndex, .memory, .pointer, .integer, .divider, .init]

/-- The name of a mode. -/
def name : ProbeMode → String
  | .arrayIndex => "array-index"
  | .pointerIndex => "pointer-index"
  | .arrayPointerIndex => "array-pointer-index"
  | .memory => "memory"
  | .pointer => "pointer"
  | .integer => "integer"
  | .divider => "divider"
  | .init => "init"

/-- The mode of a name. -/
def ofName (s : String) : Except UnknownName ProbeMode :=
  match all.find? (·.name == s) with
  | some found => .ok found
  | none => .error ⟨"instrument mode", s⟩

end ProbeMode

/-- **The expressions** that the mutate pass may hook. -/
inductive HookTarget where
  | arrayIndex | pointer | integer
  deriving DecidableEq, Repr

namespace HookTarget

/-- Every target, in the order in which the pass takes them. -/
def all : List HookTarget := [.arrayIndex, .pointer, .integer]

/-- The name of a target. -/
def name : HookTarget → String
  | .arrayIndex => "array-index"
  | .pointer => "pointer"
  | .integer => "integer"

/-- The target of a name. -/
def ofName (s : String) : Except UnknownName HookTarget :=
  match all.find? (·.name == s) with
  | some found => .ok found
  | none => .error ⟨"mutation target", s⟩

end HookTarget

/-- The options of the stack-to-heap pass. -/
structure RelocationConfig where
  /-- percent chance that an eligible array is relocated -/
  probability : Nat := 100
  /-- seed of the draws -/
  seed : Nat := 0
  /-- relocated arrays are freed before returns -/
  freeOnReturn : Bool := true
  deriving DecidableEq, Repr

/-- **What a run is told to do.** -/
structure RunSettings where
  passes : List PassKind := [.braces, .instrument]
  mode : Option ProbeMode := none
  targets : List HookTarget := [.arrayIndex, .pointer]
  relocation : RelocationConfig := {}
  /-- the outputs are parsed again and their new errors counted -/
  validateOutput : Bool := false
  deriving DecidableEq, Repr

/-- One thing that is wrong with a configuration. -/
inductive ConfigIssue where
  | emptyPassList
  | duplicatePass (pass : PassKind)
  | outOfRange (field : String) (value max : Nat)
  | invalidCombination (message : String)
  deriving DecidableEq, Repr

/-- The wording of an issue. -/
def ConfigIssue.message : ConfigIssue → String
  | .emptyPassList => "run.passes selects no passes"
  | .duplicatePass pass => "pass '" ++ pass.name ++ "' is listed more than once"
  | .outOfRange field value max =>
    field ++ " = " ++ toString value ++ " is out of range (0-" ++ toString max ++ ")"
  | .invalidCombination message => "invalid configuration: " ++ message

/-- The wording of several issues, one a line. -/
def ConfigIssue.messageAll (issues : List ConfigIssue) : String :=
  "\n".intercalate (issues.map (·.message))

namespace RunSettings

/-- The configuration selects the pass. -/
def selects (config : RunSettings) (pass : PassKind) : Bool := config.passes.contains pass

/-- The entries of a list that already stood in it, `seen` being what came before. -/
def repeatedFrom : List PassKind → List PassKind → List PassKind
  | _, [] => []
  | seen, p :: ps =>
    if seen.contains p then p :: repeatedFrom seen ps else repeatedFrom (p :: seen) ps

/-- **Everything that is wrong** with a configuration. -/
def issues (config : RunSettings) : List ConfigIssue :=
  (if config.passes.isEmpty then [.emptyPassList] else []) ++
  (repeatedFrom [] config.passes).map .duplicatePass ++
  (if 100 < config.relocation.probability then
    [.outOfRange "stack_to_heap.probability" config.relocation.probability 100] else []) ++
  (if config.selects .mutate && config.targets.isEmpty then
    [.invalidCombination "mutate pass selected with no targets"] else []) ++
  (if config.mode.isSome && !config.selects .instrument then
    [.invalidCombination "instrument.mode is set but the instrument pass is not selected"]
  else [])

end RunSettings

end ProbeWeaver
