import ProbeWeaver.CommandLine.Options
import ProbeWeaver.Config.Settings
import ProbeWeaver.Text.Number
import ProbeWeaver.Text.Search

/-!
# CommandLine/Command — what the arguments ask for

A command names its sources and may override parts of the configuration.
-/

namespace ProbeWeaver.CommandLine

/-- **The sources of a command**: paths, the root that they have to stay under, what to leave alone,
and the file that holds the configuration. -/
structure Target where
  paths : List String
  root : Option String := none
  excluded : List String := []
  config : Option String := none
  deriving DecidableEq, Repr

/-- **Overrides**: parts of a configuration that the arguments fix. -/
structure Overrides where
  passes : Option (List PassKind) := none
  mode : Option ProbeMode := none
  targets : Option (List HookTarget) := none
  probability : Option Nat := none
  seed : Option Nat := none
  keepsArrays : Bool := false
  validates : Bool := false
  deriving DecidableEq, Repr

/-- **The configuration with overrides** in force. -/
def Overrides.apply (o : Overrides) (config : RunSettings) : RunSettings :=
  { passes := o.passes.getD config.passes
    mode := o.mode <|> config.mode
    targets := o.targets.getD config.targets
    relocation := {
      probability := o.probability.getD config.relocation.probability
      seed := o.seed.getD config.relocation.seed
      freeOnReturn := config.relocation.freeOnReturn && !o.keepsArrays }
    validateOutput := config.validateOutput || o.validates }

/-- **A command.** -/
inductive Command where
  | run (target : Target) (overrides : Overrides) (dryRun showsDiff : Bool)
  | check (target : Target) (overrides : Overrides) (asJson : Bool)
  | list
  deriving DecidableEq, Repr

/-- What arguments come to: a command, a question about the program, or a misuse. -/
inductive Invocation where
  | command (c : Command)
  | version
  | help
  | misuse
  deriving DecidableEq, Repr

/-! ## Values -/

/-- The names between the commas of a text. -/
def names? {α : Type} (ofName : String → Except UnknownName α) (text : String) :
    Option (List α) :=
  (Text.splitAt text ',').mapM fun word => (ofName word).toOption

/-- A mode. -/
def mode? (text : String) : Option ProbeMode := (ProbeMode.ofName text).toOption

/-- A percentage as it is written; whether it is too large is asked later. -/
def percentage? (text : String) : Option Nat := do
  let value ← Text.signed? 10 (Text.wordLimit 63) text.toList
  if 0 ≤ value ∧ value < (Text.wordLimit 32 : Int) then some value.toNat else none

/-- A seed. -/
def seed? (text : String) : Option Nat := Text.unsigned? 10 (Text.wordLimit 64) text.toList

/-- A path, which is never empty. -/
def path? (text : String) : Option String := if text.isEmpty then none else some text

/-! ## Options -/

/-- Asks for more of the log; every command knows it. -/
def verboseOption : OptionSpec := { long := "verbose", short := some 'v' }

/-- Asks for help. -/
def helpOption : OptionSpec := { long := "help", short := some 'h', endsReading := true }

/-- Asks for the version. -/
def versionOption : OptionSpec := { long := "version", short := some 'V', endsReading := true }

/-- An option with a value that has to be readable. -/
def valueOption {α : Type} (long : String) (read? : String → Option α) : OptionSpec :=
  { long, takesValue := true, accepts := fun text => (read? text).isSome }

/-- Options of sources and overrides. -/
def sourceOptions : List OptionSpec :=
  [verboseOption, helpOption,
    valueOption "root" path?,
    { valueOption "exclude" path? with isRepeatable := true },
    { valueOption "config" path? with short := some 'c' },
    { valueOption "passes" (names? PassKind.ofName) with isRepeatable := true },
    valueOption "mode" mode?,
    { valueOption "targets" (names? HookTarget.ofName) with isRepeatable := true },
    valueOption "mutate-prob" percentage?,
    valueOption "seed" seed?,
    { long := "no-free" },
    { long := "validate" }]

/-- Options of the command that changes files. -/
def runOptions : List OptionSpec :=
  sourceOptions ++
    [{ long := "dry-run", short := some 'n' }, { long := "diff", short := some 'd' }]

/-- Options of the command that only reports. -/
def checkOptions : List OptionSpec := sourceOptions ++ [{ long := "json" }]

/-- The use of a command with some options, which takes paths. -/
def pathUsage (options : List OptionSpec) : Usage :=
  ⟨options, fun text => (path? text).isSome⟩

/-- The use of options alone. -/
def optionUsage (options : List OptionSpec) : Usage := ⟨options, fun _ => false⟩

/-! ## Parts of a command -/

/-- The values of an option that lists names; nothing if it is not given. -/
def listOf? {α : Type} (ofName : String → Except UnknownName α) (a : Arguments) (name : String) :
    Option (Option (List α)) :=
  match a.values name with
  | [] => some none
  | texts => do
    let lists ← texts.mapM (names? ofName)
    some (some lists.flatten)

/-- The value of an option, read by `read?`; nothing if it is not given. -/
def valueOf? {α : Type} (read? : String → Option α) (a : Arguments) (name : String) :
    Option (Option α) :=
  match a.value? name with
  | none => some none
  | some text => (read? text).map some

/-- The sources that arguments name; there is at least one. -/
def target? (a : Arguments) : Option Target := do
  let paths ← a.positionals.mapM path?
  if paths.isEmpty then none
  else
    some {
      paths
      root := ← valueOf? path? a "root"
      excluded := ← (a.values "exclude").mapM path?
      config := ← valueOf? path? a "config" }

/-- The overrides that arguments give. -/
def overrides? (a : Arguments) : Option Overrides := do
  some {
    passes := ← listOf? PassKind.ofName a "passes"
    mode := ← valueOf? mode? a "mode"
    targets := ← listOf? HookTarget.ofName a "targets"
    probability := ← valueOf? percentage? a "mutate-prob"
    seed := ← valueOf? seed? a "seed"
    keepsArrays := a.has "no-free"
    validates := a.has "validate" }

/-! ## Commands -/

/-- The invocation of a command, whose arguments may ask for help instead. -/
def invoke (a : Option Arguments) (command? : Arguments → Option Command) : Invocation :=
  match a with
  | none => .misuse
  | some a =>
    if a.has "help" then .help
    else
      match command? a with
      | some c => .command c
      | none => .misuse

/-- What help can be asked about: the program, or one of its commands. -/
def isTopic : List String → Bool
  | [] => true
  | [name] => ["run", "check", "list", "help"].contains name
  | _ => false

/-- The command of a name with its arguments. -/
def ofName (name : String) (args : List String) : Invocation :=
  match name with
  | "run" => invoke (Arguments.read? (pathUsage runOptions) args) fun a => do
    some (.run (← target? a) (← overrides? a) (a.has "dry-run") (a.has "diff"))
  | "check" => invoke (Arguments.read? (pathUsage checkOptions) args) fun a => do
    some (.check (← target? a) (← overrides? a) (a.has "json"))
  | "list" => invoke (Arguments.read? (optionUsage [verboseOption, helpOption]) args) fun _ =>
    some .list
  | "help" => if isTopic args then .help else .misuse
  | _ => .misuse

/-- The options of one argument before the command. -/
def leading? (arg : String) : Option Arguments :=
  if arg = "--" then none
  else Arguments.read? (optionUsage [verboseOption, helpOption, versionOption]) [arg]

/-- The invocation of arguments, some options standing before the command. -/
def invocationFrom (isVerbose : Bool) : List String → Invocation
  | [] => .misuse
  | arg :: args =>
    if Arguments.namesOption arg then
      match leading? arg with
      | none => .misuse
      | some a =>
        match a.given.find? fun (name, _) => name != "verbose" || isVerbose with
        | some ("version", _) => .version
        | some ("help", _) => .help
        | some _ => .misuse
        | none => invocationFrom (isVerbose || a.has "verbose") args
    else ofName arg args

/-- **What arguments ask for.** -/
def Invocation.ofArguments (args : List String) : Invocation := invocationFrom false args

end ProbeWeaver.CommandLine
