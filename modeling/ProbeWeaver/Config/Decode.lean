import ProbeWeaver.Config.Settings
import ProbeWeaver.Toml.Value

/-!
# Config/Decode — configurations out of TOML tables

Each section of a configuration is a table whose keys may all be missing, or the list of its values
in order.  Keys that nobody asks for are ignored; a value of the wrong type spoils the whole.
-/

namespace ProbeWeaver.Decode

open Toml (Value)

/-- A boolean. -/
def boolean? : Value → Option Bool
  | .boolean b => some b
  | _ => none

/-- A number from zero up to a limit. -/
def natural? (limit : Nat) : Value → Option Nat
  | .integer n => if 0 ≤ n ∧ n < limit then some n.toNat else none
  | _ => none

/-- **A name**, written as text or as the only key of a table with nothing under it. -/
def name? {α : Type} (ofName : String → Except UnknownName α) : Value → Option α
  | .string text => (ofName text).toOption
  | .table [(key, v)] => if v.isEmptyContainer then (ofName key).toOption else none
  | _ => none

/-- A list of names. -/
def names? {α : Type} (ofName : String → Except UnknownName α) : Value → Option (List α)
  | .array items => items.mapM (name? ofName)
  | _ => none

/-- The values of a section by their keys. -/
def fields? (keys : List String) : Value → Option (List (String × Value))
  | .table entries => some entries
  | .array items => some (keys.zip items)
  | _ => none

/-- The values of a section of a table; a missing section has none. -/
def section? (document : List (String × Value)) (name : String) (keys : List String) :
    Option (List (String × Value)) :=
  match document.lookup name with
  | some v => fields? keys v
  | none => some []

/-- The value of a key, or what holds without it. -/
def fieldOr? {α : Type} (decode : Value → Option α) (default : α) (key : String)
    (fields : List (String × Value)) : Option α :=
  match fields.lookup key with
  | some v => decode v
  | none => some default

/-- The options of the stack-to-heap pass. -/
def relocation? (fields : List (String × Value)) : Option RelocationConfig := do
  let base : RelocationConfig := {}
  some {
    probability := ← fieldOr? (natural? (Text.wordLimit 32)) base.probability "probability" fields
    seed := ← fieldOr? (natural? (Text.wordLimit 64)) base.seed "seed" fields
    freeOnReturn := ← fieldOr? boolean? base.freeOnReturn "free_on_return" fields }

end ProbeWeaver.Decode

namespace ProbeWeaver

open Decode in
/-- **The configuration that a table holds.** -/
def RunSettings.ofTable? (document : List (String × Toml.Value)) : Option RunSettings := do
  let base : RunSettings := {}
  let run ← section? document "run" ["passes"]
  let instrument ← section? document "instrument" ["mode"]
  let mutate ← section? document "mutate" ["targets"]
  let heap ← section? document "stack_to_heap" ["probability", "seed", "free_on_return"]
  let output ← section? document "output" ["validate"]
  some {
    passes := ← fieldOr? (names? PassKind.ofName) base.passes "passes" run
    mode := ← fieldOr? (fun v => (name? ProbeMode.ofName v).map some) base.mode "mode"
      instrument
    targets := ← fieldOr? (names? HookTarget.ofName) base.targets "targets" mutate
    relocation := ← relocation? heap
    validateOutput := ← fieldOr? boolean? base.validateOutput "validate" output }

end ProbeWeaver
