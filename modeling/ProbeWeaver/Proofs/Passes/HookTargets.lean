import ProbeWeaver.Proofs.Passes.Draws
import ProbeWeaver.Proofs.Rule.Relations

/-!
# Proofs/Passes/HookTargets — what the hooks are put around

Each rule of hooks wraps a part of the construct that it is about: the index of a subscript, the
pointer of a dereference or of a member, an operand of arithmetic.  No other text draws a number of
a hook (`Rule.Listed.closesOperands`).
-/

namespace ProbeWeaver

variable {r : Rule} {name : String}

/-- The node fills a field that holds an operand. -/
def Node.isOperand (n : Node) : Bool :=
  match n.tree.field with
  | some .index | some .argument | some .left | some .right => true
  | _ => false

/-- The categories that no hook has. -/
def Hooks.unhooked : List Category := Category.all.filter (· ∉ Hooks.all.map (·.category))

theorem Hooks.not_mem_unhooked {h : Hooks.Hook} (hh : h ∈ Hooks.all) :
    h.category ∉ Hooks.unhooked := by
  have hall : ∀ h ∈ Hooks.all, h.category ∉ Hooks.unhooked := by decide
  exact hall h hh

namespace Rule

theorem IsPart.isOperand {k : Kind} {fields : List Field} {main n : Node}
    (h : IsPart k fields main n)
    (hfields : ∀ f ∈ fields, f ∈ [Field.index, .argument, .left, .right]) : n.isOperand = true := by
  obtain ⟨f, hf, hfield⟩ := h.field
  have hf := hfields f hf
  simp only [List.mem_cons, List.not_mem_nil, or_false] at hf
  rw [Node.isOperand, hfield]
  rcases hf with rfl | rfl | rfl | rfl <;> rfl

/-- Each template of the rule draws no number of a hook, or goes behind an operand. -/
def ClosesOperands (r : Rule) : Prop :=
  ∀ e ∈ r.edits, e.makeText.DrawsOf Hooks.unhooked ∨
    ∃ name, e.anchor = .after name ∧ r.Relates name fun _ n => n.isOperand = true

theorem closesOperands_of_wrapped {hook : Hooks.Hook}
    (hedits : r.edits = [⟨.before name, .literal Hooks.opener⟩, ⟨.after name, Hooks.closer hook⟩])
    (hname : r.Relates name fun _ n => n.isOperand = true) : r.ClosesOperands := by
  rw [ClosesOperands, hedits]
  exact List.forall_mem_cons.mpr ⟨.inl (EditText.drawsOf_literal _),
    List.forall_mem_singleton.mpr (.inr ⟨name, rfl, hname⟩)⟩

end Rule

open Rule

namespace Hooks

/-- The index of a subscript. -/
theorem relates_index : arrayIndexRule.Relates "index" (IsPart .subscriptExpression [.index]) :=
  relates_field "mutate-array-index" .subscriptExpression [(.argument, "base"), (.index, "index")]
    (by decide) (by decide)

/-- The pointer of a dereference or of a member. -/
theorem relates_target {k : Kind} (ruleName : String) {finder : Finder} :
    ((Rule.ofPattern ruleName (targetPattern k)).bind "stmt" finder).Relates "target"
      (IsPart k [.argument]) :=
  (relates_field ruleName k [(.argument, "target")] (by decide) (by decide)).bind (by decide)

/-- The operands of arithmetic. -/
theorem relates_operand (hname : name = "left" ∨ name = "right") : integerRule.Relates name
    (IsPart .binaryExpression (([(.left, "left"), (.right, "right")].filter
      fun part : Field × String => part.2 = name).map Prod.fst)) :=
  relates_field "mutate-integer" .binaryExpression [(.left, "left"), (.right, "right")] (by decide)
    (by rcases hname with rfl | rfl <;> decide)

theorem closesOperands_of_mem (hr : r ∈ pointerSet.rules) : r.ClosesOperands := by
  simp only [pointerSet, RuleSet.rules, List.mem_cons, List.not_mem_nil, or_false] at hr
  rcases hr with rfl | rfl
  · exact closesOperands_of_wrapped rfl <| Relates.mono (relates_target "mutate-pointer-deref")
      fun _ _ h => h.isOperand (by decide)
  · exact closesOperands_of_wrapped rfl <| Relates.mono (relates_target "mutate-pointer-member")
      fun _ _ h => h.isOperand (by decide)

theorem closesOperands_integerRule : integerRule.ClosesOperands := by
  have hoperand : ∀ name ∈ ["left", "right"],
      integerRule.Relates name fun _ n => n.isOperand = true := by
    intro name hname
    have hname : name = "left" ∨ name = "right" := by simpa using hname
    refine (relates_operand hname).mono fun _ _ h => h.isOperand ?_
    rcases hname with rfl | rfl <;> decide
  exact List.forall_mem_cons.mpr ⟨.inl (EditText.drawsOf_literal _),
    List.forall_mem_cons.mpr ⟨.inr ⟨_, rfl, hoperand _ (by decide)⟩,
      List.forall_mem_cons.mpr ⟨.inl (EditText.drawsOf_literal _),
        List.forall_mem_singleton.mpr (.inr ⟨_, rfl, hoperand _ (by decide)⟩)⟩⟩⟩

end Hooks

/-- **A rule of hooks, or one that draws no number of a hook.** -/
theorem Rule.Listed.hooks_or_drawsOf (h : r.Listed) :
    (∃ target, r ∈ (Hooks.targetSet target).rules) ∨ r.DrawsOf Hooks.unhooked := by
  cases h with
  | hookedIndex => exact .inl ⟨.arrayIndex, List.mem_singleton.mpr rfl⟩
  | hookedPointer mem => exact .inl ⟨.pointer, mem⟩
  | hookedOperands => exact .inl ⟨.integer, List.mem_singleton.mpr rfl⟩
  | thenBranch | elseBranch | loopBody => exact .inr ((Braces.drawsOf_wrapping rfl).mono (by decide))
  | labelled mem => exact .inr ((Braces.drawsOf_of_mem mem).mono (by decide))
  | block => exact .inr (Tracing.drawsOf_blockRule.mono (by decide))
  | declaration =>
    exact .inr ((drawsOf_of_single rfl Tracing.drawsOf_varDeclMarker).mono (by decide))
  | site => exact .inr ((drawsOf_of_single rfl Tracing.drawsOf_siteProbe).mono (by decide))
  | entry => exact .inr ((drawsOf_of_single rfl Tracing.drawsOf_entryMarker).mono (by decide))
  | arrayIndex =>
    exact .inr ((drawsOf_of_single rfl Observation.drawsOf_arrayReference).mono (by decide))
  | pointerIndex =>
    exact .inr ((drawsOf_of_single rfl Observation.drawsOf_pointerIndexReference).mono (by decide))
  | memory mem => exact .inr ((Observation.drawsOf_of_mem_memorySet mem).mono (by decide))
  | pointer mem => exact .inr ((Observation.drawsOf_of_mem_pointerSet mem).mono (by decide))
  | integer | divider =>
    exact .inr ((drawsOf_of_single rfl Observation.drawsOf_integerOperands).mono (by decide))
  | init => exact .inr ((drawsOf_of_single rfl Observation.drawsOf_initReference).mono (by decide))
  | relocation lottery => exact .inr ((Relocation.drawsOf_relocationRule lottery).mono (by decide))
  | free lottery =>
    exact .inr ((drawsOf_of_single rfl (Relocation.drawsOf_freeing lottery)).mono (by decide))
  | flags => exact .inr ((drawsOf_of_single rfl Tracing.drawsOf_flagLines).mono nofun)
  | definitions => exact .inr ((drawsOf_of_single rfl Hooks.drawsOf_definitions).mono nofun)
  | helpers => exact .inr ((drawsOf_of_single rfl Relocation.drawsOf_helperLines).mono nofun)

/-- **Numbers of hooks go behind operands**, whichever rule draws them. -/
theorem Rule.Listed.closesOperands (h : r.Listed) : r.ClosesOperands := by
  rcases h.hooks_or_drawsOf with ⟨target, hr⟩ | hdraws
  · cases target with
    | arrayIndex =>
      rw [RuleSet.eq_of_mem_single hr]
      exact closesOperands_of_wrapped rfl <| Relates.mono Hooks.relates_index fun _ _ h =>
        h.isOperand (by decide)
    | pointer => exact Hooks.closesOperands_of_mem hr
    | integer =>
      rw [RuleSet.eq_of_mem_single hr]
      exact Hooks.closesOperands_integerRule
  · exact fun e he => .inl (hdraws e he)

end ProbeWeaver
