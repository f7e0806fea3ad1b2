import ProbeWeaver.Passes.Braces
import ProbeWeaver.Passes.Hooks
import ProbeWeaver.Passes.Relocation
import ProbeWeaver.Passes.Tracing

/-!
# Passes/Selection — the passes that a configuration selects
-/

namespace ProbeWeaver

/-- The pass of a kind, with the options of the configuration. -/
def Pass.ofKind (config : RunSettings) : PassKind → Pass
  | .braces => Braces.pass
  | .instrument => Tracing.pass config.mode
  | .mutate => Hooks.pass config.targets
  | .stackToHeap => Relocation.pass config.relocation

/-- **The selected passes**, in the order of the configuration. -/
def RunSettings.selectedPasses (config : RunSettings) : List Pass :=
  config.passes.map (Pass.ofKind config)

end ProbeWeaver
