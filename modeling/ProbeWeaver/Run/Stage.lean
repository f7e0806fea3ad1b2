/-!
# Run/Stage — how far a run is

A run goes from `idle` through `parsing`, its passes in order, and `applying` to `done`; from any
stage before the end it may go to `failed`.
-/

namespace ProbeWeaver

/-- **How far a run is.** -/
inductive RunStage where
  | idle | parsing
  | pass (index : Nat)
  | applying | done | failed
  deriving DecidableEq, Repr

namespace RunStage

/-- The run is over. -/
def isOver : RunStage → Bool
  | .done | .failed => true
  | _ => false

/-- **The steps that a run may take.** -/
def allowsNext : RunStage → RunStage → Bool
  | s, .failed => !s.isOver
  | .idle, .parsing => true
  | .parsing, .pass i => i == 0
  | .parsing, .applying => true
  | .pass i, .pass j => j == i + 1
  | .pass _, .applying => true
  | .applying, .done => true
  | _, _ => false

/-- The name of a stage. -/
def name : RunStage → String
  | .idle => "Idle"
  | .parsing => "Parsing"
  | .pass i => "Pass(" ++ toString i ++ ")"
  | .applying => "Applying"
  | .done => "Done"
  | .failed => "Failed"

end RunStage

end ProbeWeaver
