/-!
# CommandLine/Options — options and positional arguments

An option is written `--name` or by one letter, several letters sharing a dash.  Its value is the
next argument, or is attached: `--name=value`, `-nvalue`, `-n=value`.  After `--` every argument is
positional.  Arguments are refused as they are read, and nothing is read behind an option that asks
about the program itself.
-/

namespace ProbeWeaver.CommandLine

/-- **An option.**  One that is not repeatable may be given once. -/
structure OptionSpec where
  long : String
  short : Option Char := none
  takesValue : Bool := false
  isRepeatable : Bool := false
  /-- what stands behind the option is not read -/
  endsReading : Bool := false
  /-- the texts that are values of the option -/
  accepts : String → Bool := fun _ => true

/-- **What may be given**: options, and the texts that are positional arguments. -/
structure Usage where
  options : List OptionSpec
  acceptsPositional : String → Bool

/-- **Arguments taken apart**: options in order, with the text given for each, and the rest. -/
structure Arguments where
  given : List (String × String) := []
  positionals : List String := []
  deriving DecidableEq, Repr

namespace Arguments

/-- The texts given for an option. -/
def values (a : Arguments) (name : String) : List String :=
  (a.given.filter (·.1 == name)).map (·.2)

/-- The text given for an option that is not repeatable. -/
def value? (a : Arguments) (name : String) : Option String := (a.values name).head?

/-- The option is given. -/
def has (a : Arguments) (name : String) : Bool := a.given.any (·.1 == name)

/-- Gives an option a text. -/
def give? (a : Arguments) (spec : OptionSpec) (text : String) : Option Arguments :=
  if !spec.accepts text || (!spec.isRepeatable && a.has spec.long) then none
  else some { a with given := a.given ++ [(spec.long, text)] }

/-- An option by its name; without an attached value, one that takes a value waits for it. -/
def readLong? (specs : List OptionSpec) (a : Arguments) (body : List Char) :
    Option (Arguments × Option OptionSpec) := do
  let name := String.ofList (body.takeWhile (· != '='))
  let spec ← specs.find? (·.long == name)
  match spec.takesValue, body.dropWhile (· != '=') with
  | true, [] => some (a, some spec)
  | true, _ :: text => some (← a.give? spec (String.ofList text), none)
  | false, [] => some (← a.give? spec "", none)
  | false, _ :: _ => none

/-- Options by their letters; what follows the letter of one that takes a value is its value. -/
def readShorts? (specs : List OptionSpec) :
    Arguments → List Char → Option (Arguments × Option OptionSpec)
  | a, [] => some (a, none)
  | a, c :: cs => do
    let spec ← specs.find? (·.short == some c)
    if spec.takesValue then
      match cs with
      | [] => some (a, some spec)
      | '=' :: text => some (← a.give? spec (String.ofList text), none)
      | text => some (← a.give? spec (String.ofList text), none)
    else
      let a ← a.give? spec ""
      if spec.endsReading then some (a, none) else readShorts? specs a cs

/-- An argument that names options; a lone dash does not. -/
def namesOption (arg : String) : Bool :=
  match arg.toList with
  | '-' :: _ :: _ => true
  | _ => false

/-- One argument. -/
def readOne? (usage : Usage) (a : Arguments) (arg : String) :
    Option (Arguments × Option OptionSpec) :=
  match arg.toList with
  | '-' :: '-' :: body => a.readLong? usage.options body
  | '-' :: c :: cs => a.readShorts? usage.options (c :: cs)
  | _ =>
    if usage.acceptsPositional arg then
      some ({ a with positionals := a.positionals ++ [arg] }, none)
    else none

/-- An option that ends the reading is given. -/
def isOver (usage : Usage) (a : Arguments) : Bool :=
  usage.options.any fun spec => spec.endsReading && a.has spec.long

/-- The arguments after `a`, where an option may wait for its value. -/
def readFrom? (usage : Usage) :
    Option OptionSpec → Arguments → List String → Option Arguments
  | none, a, [] => some a
  | some _, _, [] => none
  | some spec, a, arg :: args =>
    if namesOption arg then none
    else do readFrom? usage none (← a.give? spec arg) args
  | none, a, arg :: args =>
    if arg = "--" then
      if args.all usage.acceptsPositional then
        some { a with positionals := a.positionals ++ args }
      else none
    else do
      let (a, waiting) ← a.readOne? usage arg
      if isOver usage a then some a else readFrom? usage waiting a args

/-- **Takes arguments apart**; nothing when they are no such use. -/
def read? (usage : Usage) (args : List String) : Option Arguments :=
  readFrom? usage none {} args

end Arguments

end ProbeWeaver.CommandLine
