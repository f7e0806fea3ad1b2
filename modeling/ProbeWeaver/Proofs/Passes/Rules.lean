import ProbeWeaver.Passes.Selection
import ProbeWeaver.Proofs.Rule.Visits
import ProbeWeaver.Run.Pipeline

/-!
# Proofs/Passes/Rules — the rules of all passes

Whatever the configuration, a pass consists of rules of one list (`Rule.Listed`).  A fact about
every rule of every pass is proved by cases on it (`Pass.listed_of_mem`).
-/

namespace ProbeWeaver

variable {r : Rule} {s : RuleSet}

/-- **The rules that passes consist of.** -/
inductive Rule.Listed : Rule → Prop where
  | thenBranch : Listed Braces.thenRule
  | elseBranch : Listed Braces.elseRule
  | loopBody : Listed Braces.loopRule
  | labelled {r : Rule} (mem : r ∈ Braces.labelSet.rules) : Listed r
  | block : Listed Tracing.blockRule
  | declaration : Listed Tracing.declarationRule
  | site : Listed Tracing.siteRule
  | entry : Listed Tracing.entryRule
  | flags : Listed Tracing.flagRule
  | arrayIndex : Listed Observation.arrayIndexRule
  | pointerIndex : Listed Observation.pointerIndexRule
  | memory {r : Rule} (mem : r ∈ Observation.memorySet.rules) : Listed r
  | pointer {r : Rule} (mem : r ∈ Observation.pointerSet.rules) : Listed r
  | integer : Listed Observation.integerRule
  | divider : Listed Observation.dividerRule
  | init : Listed Observation.initRule
  | hookedIndex : Listed Hooks.arrayIndexRule
  | hookedPointer {r : Rule} (mem : r ∈ Hooks.pointerSet.rules) : Listed r
  | hookedOperands : Listed Hooks.integerRule
  | definitions : Listed Hooks.definitionRule
  | relocation (lottery : Relocation.Lottery) : Listed (Relocation.relocationRule lottery)
  | free (lottery : Relocation.Lottery) : Listed (Relocation.freeRule lottery)
  | helpers : Listed Relocation.helperRule

/-- The rule of a set of one. -/
theorem RuleSet.eq_of_mem_single {r' : Rule} (h : r ∈ (RuleSet.single r').rules) : r = r' := by
  rw [rules] at h
  exact List.mem_singleton.mp h

theorem Braces.listed_of_mem (hs : s ∈ Braces.pass.sets) (hr : r ∈ s.rules) : r.Listed := by
  obtain rfl := List.mem_singleton.mp hs
  simp only [RuleSet.rules, RuleSet.rulesOfAll, List.append_nil, List.mem_append, List.mem_cons,
    List.not_mem_nil, or_false] at hr
  rcases hr with rfl | rfl | rfl | hr
  · exact .thenBranch
  · exact .elseBranch
  · exact .loopBody
  · exact .labelled hr

theorem Observation.listed_of_mem {mode : ProbeMode} (hs : s ∈ Observation.setsOf mode)
    (hr : r ∈ s.rules) : r.Listed := by
  cases mode <;> simp only [Observation.setsOf, List.mem_cons, List.not_mem_nil, or_false] at hs
  case arrayIndex => exact RuleSet.eq_of_mem_single (hs ▸ hr) ▸ .arrayIndex
  case pointerIndex => exact RuleSet.eq_of_mem_single (hs ▸ hr) ▸ .pointerIndex
  case arrayPointerIndex =>
    rcases hs with rfl | rfl
    · exact RuleSet.eq_of_mem_single hr ▸ .arrayIndex
    · exact RuleSet.eq_of_mem_single hr ▸ .pointerIndex
  case memory => exact .memory (hs ▸ hr)
  case pointer => exact .pointer (hs ▸ hr)
  case integer => exact RuleSet.eq_of_mem_single (hs ▸ hr) ▸ .integer
  case divider => exact RuleSet.eq_of_mem_single (hs ▸ hr) ▸ .divider
  case init => exact RuleSet.eq_of_mem_single (hs ▸ hr) ▸ .init

theorem Tracing.listed_of_mem {mode : Option ProbeMode} (hs : s ∈ (Tracing.pass mode).sets)
    (hr : r ∈ s.rules) : r.Listed := by
  simp only [Tracing.pass, List.append_assoc, List.mem_append, List.mem_cons, List.not_mem_nil,
    or_false] at hs
  rcases hs with (rfl | rfl | rfl) | hs | rfl | rfl
  · exact RuleSet.eq_of_mem_single hr ▸ .block
  · exact RuleSet.eq_of_mem_single hr ▸ .declaration
  · exact RuleSet.eq_of_mem_single hr ▸ .site
  · cases mode with
    | none => exact absurd hs List.not_mem_nil
    | some mode => exact Observation.listed_of_mem hs hr
  · exact RuleSet.eq_of_mem_single hr ▸ .entry
  · exact RuleSet.eq_of_mem_single hr ▸ .flags

theorem Hooks.listed_of_mem {targets : List HookTarget} (hs : s ∈ (Hooks.pass targets).sets)
    (hr : r ∈ s.rules) : r.Listed := by
  rcases List.mem_append.mp hs with hs | hs
  · obtain ⟨target, -, rfl⟩ := List.mem_map.mp hs
    cases target with
    | arrayIndex => exact RuleSet.eq_of_mem_single hr ▸ .hookedIndex
    | pointer => exact .hookedPointer hr
    | integer => exact RuleSet.eq_of_mem_single hr ▸ .hookedOperands
  · obtain rfl := List.mem_singleton.mp hs
    exact RuleSet.eq_of_mem_single hr ▸ .definitions

theorem Relocation.listed_of_mem {config : RelocationConfig}
    (hs : s ∈ (Relocation.pass config).sets) (hr : r ∈ s.rules) : r.Listed := by
  simp only [Relocation.pass, List.mem_append, List.mem_cons, List.not_mem_nil, or_false] at hs
  rcases hs with (rfl | hs) | rfl
  · exact RuleSet.eq_of_mem_single hr ▸ .relocation _
  · split at hs
    · obtain rfl := List.mem_singleton.mp hs
      exact RuleSet.eq_of_mem_single hr ▸ .free _
    · exact absurd hs List.not_mem_nil
  · exact RuleSet.eq_of_mem_single hr ▸ .helpers

/-- **Every rule of every pass** is on the list. -/
theorem Pass.listed_of_mem {config : RunSettings} {kind : PassKind}
    (h : r ∈ (Pass.ofKind config kind).rules) : r.Listed := by
  obtain ⟨s, hs, hr⟩ := List.mem_flatMap.mp h
  cases kind with
  | braces => exact Braces.listed_of_mem hs hr
  | instrument => exact Tracing.listed_of_mem hs hr
  | mutate => exact Hooks.listed_of_mem hs hr
  | stackToHeap => exact Relocation.listed_of_mem hs hr

/-! ## Names of rules -/

/-- **The names of the rules of a pass**, whatever its options. -/
def PassKind.ruleNames : PassKind → List String
  | .braces => ["braces-if-then", "braces-if-else", "braces-loop", "braces-case", "braces-default"]
  | .instrument =>
    ["log-braces", "log-var-decl", "log-insertion-site", "log-function-entry", "log-flag-arrays",
      "value-pointer", "value-pointer-assign", "value-pointer-subscript",
      "value-pointer-subscript-assign", "value-memory-deref", "value-memory-field",
      "value-memory-subscript", "value-memory-local", "value-memory-global", "value-integer",
      "value-divider", "value-array-index", "value-pointer-index", "value-init"]
  | .mutate =>
    ["mutate-array-index", "mutate-pointer-deref", "mutate-pointer-member", "mutate-integer",
      "mutate-macros"]
  | .stackToHeap => ["heap-relocate", "heap-free", "heap-helpers"]

theorem Pass.name_mem_ruleNames {config : RunSettings} {kind : PassKind}
    (hr : r ∈ (Pass.ofKind config kind).rules) : r.name ∈ kind.ruleNames := by
  cases kind with
  | braces =>
    have hnames : ∀ r ∈ Braces.pass.rules, r.name ∈ PassKind.ruleNames .braces := by decide
    exact hnames r hr
  | instrument =>
    have hnames : ∀ mode, ∀ r ∈ (Tracing.pass mode).rules,
        r.name ∈ PassKind.ruleNames .instrument := by
      rintro (- | mode)
      · decide
      · cases mode <;> decide
    exact hnames config.mode r hr
  | mutate =>
    obtain ⟨s, hs, hr⟩ := List.mem_flatMap.mp hr
    rcases List.mem_append.mp hs with hs | hs
    · obtain ⟨target, -, rfl⟩ := List.mem_map.mp hs
      have hnames : ∀ r ∈ (Hooks.targetSet target).rules, r.name ∈ PassKind.ruleNames .mutate := by
        cases target <;> decide
      exact hnames r hr
    · obtain rfl := List.mem_singleton.mp hs
      rw [RuleSet.eq_of_mem_single hr]
      decide
  | stackToHeap =>
    obtain ⟨s, hs, hr⟩ := List.mem_flatMap.mp hr
    rcases List.mem_append.mp hs with hs | hs
    · rcases List.mem_append.mp hs with hs | hs
      · obtain rfl := List.mem_singleton.mp hs
        rw [RuleSet.eq_of_mem_single hr]
        exact .head _
      · split at hs
        · obtain rfl := List.mem_singleton.mp hs
          rw [RuleSet.eq_of_mem_single hr]
          exact .tail _ (.head _)
        · exact absurd hs List.not_mem_nil
    · obtain rfl := List.mem_singleton.mp hs
      rw [RuleSet.eq_of_mem_single hr]
      decide

/-- **Passes of different kinds** have no rule in common. -/
theorem PassKind.eq_of_mem_ruleNames {kind other : PassKind} {name : String}
    (h : name ∈ kind.ruleNames) (h' : name ∈ other.ruleNames) : kind = other := by
  have hall : ∀ name ∈ kind.ruleNames, name ∈ other.ruleNames → kind = other := by
    cases kind <;> cases other <;> decide
  exact hall name h h'

/-- A pipeline has the passes that it is built from, and maybe the braces pass. -/
theorem Pipeline.mem_passes_build {passes : List Pass} {validateOutput dryRun : Bool} {p : Pass}
    (h : p ∈ (build passes validateOutput dryRun).passes) : p = Braces.pass ∨ p ∈ passes := by
  rw [build] at h
  dsimp only at h
  split at h
  · exact List.mem_cons.mp h
  · exact .inr h

end ProbeWeaver
