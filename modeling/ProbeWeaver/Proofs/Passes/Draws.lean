import ProbeWeaver.Proofs.Passes.Rules
import ProbeWeaver.Proofs.Passes.Writes

/-!
# Proofs/Passes/Draws — which numbers each pass draws

Each text draws numbers of one category at most, and each pass has categories of its own
(`PassKind.categories`), so no two passes draw from the same numbers.

* `Pass.drawsOf_ofKind` — the rules of a pass draw numbers of its categories alone.
-/

namespace ProbeWeaver

variable {r : Rule} {c : Category} {cs ds : List Category} {draws : List Draw} {mode : ProbeMode}

/-! ## Texts -/

/-- **Only numbers of these categories** are drawn. -/
def Eval.DrawsOf {α : Type} (cs : List Category) (x : Eval α) : Prop :=
  x.Gives fun _ draws => ∀ d ∈ draws, d.category ∈ cs

namespace Eval

variable {α β : Type} {x : Eval α} {f : α → Eval β}

theorem DrawsOf.mono (h : DrawsOf cs x) (hsub : ∀ c ∈ cs, c ∈ ds) : DrawsOf ds x :=
  Gives.mono h fun _ _ hdraws d hd => hsub _ (hdraws d hd)

/-- What draws nothing. -/
theorem drawsOf_of_gives {P : α → List Draw → Prop} (h : x.Gives P)
    (hnone : ∀ a draws, P a draws → draws = []) : DrawsOf cs x :=
  h.mono fun a draws hP d hd => by
    rw [hnone a draws hP] at hd
    exact absurd hd List.not_mem_nil

theorem drawsOf_pure (a : α) : DrawsOf cs (pure a) :=
  gives_pure fun _ h => absurd h List.not_mem_nil

theorem drawsOf_node {m : Match} (name : String) : DrawsOf cs (liftM (m.node name)) :=
  drawsOf_of_gives (gives_node m name) fun _ _ h => h.2

theorem drawsOf_draw (hc : c ∈ cs) : DrawsOf cs (draw c) :=
  (gives_draw c).mono fun _ _ h d hd => by
    rw [h] at hd
    rwa [List.mem_singleton.mp hd]

theorem DrawsOf.bind (hx : DrawsOf cs x) (hf : ∀ a, DrawsOf cs (f a)) : DrawsOf cs (x >>= f) :=
  Gives.bind hx fun a _ hdraws => Gives.mono (hf a) fun _ _ hmore d hd =>
    (List.mem_append.mp hd).elim (hdraws d) (hmore d)

/-- A number drawn for a text. -/
theorem drawsOf_text (hc : c ∈ cs) (text : Nat → Option String) :
    DrawsOf cs (draw c >>= fun id => pure (text id)) :=
  (drawsOf_draw hc).bind fun id => drawsOf_pure (text id)

/-- No number of another category is in any account of the draws. -/
theorem DrawsOf.not_mem {numbering numbering' : Numbering} {a : α} (h : DrawsOf cs x)
    (hrun : x.run numbering = .ok (a, numbering')) (hands : numbering.Hands draws numbering')
    {n : Nat} (hc : c ∉ cs) : ⟨c, n⟩ ∉ draws := by
  intro hmem
  obtain ⟨other, hands', hother⟩ := h hrun
  have hcount : numbering'.count c = numbering.count c :=
    hands'.count_eq fun d hd hdc => hc (hdc ▸ hother d hd)
  have hnumbers := hands.numbersOf_eq c
  rw [hcount, Nat.sub_self] at hnumbers
  have hn : n ∈ Draw.numbersOf c draws :=
    List.mem_map_of_mem (f := Draw.number) (List.mem_filter.mpr ⟨hmem, decide_eq_true rfl⟩)
  rw [hnumbers] at hn
  exact absurd hn List.not_mem_nil

end Eval

/-- The text draws numbers of these categories alone. -/
def EditText.DrawsOf (cs : List Category) (makeText : EditText) : Prop :=
  ∀ cx m, Eval.DrawsOf cs (makeText cx m)

open Eval

theorem EditText.drawsOf_literal (text : String) : (EditText.literal text).DrawsOf cs :=
  fun _ _ => drawsOf_pure _

namespace Tracing

theorem drawsOf_braceStart : EditText.DrawsOf [.brace] braceStart := fun _ _ =>
  drawsOf_text List.mem_cons_self _

theorem drawsOf_varDeclMarker : EditText.DrawsOf [.varDecl] varDeclMarker := by
  intro cx m
  rw [varDeclMarker]
  split
  · exact drawsOf_pure none
  · exact drawsOf_text List.mem_cons_self _

theorem drawsOf_siteProbe : EditText.DrawsOf [.inst] siteProbe := fun _ _ =>
  drawsOf_text List.mem_cons_self _

theorem drawsOf_entryMarker : EditText.DrawsOf [.funcEnter] entryMarker := by
  intro cx m
  rw [entryMarker]
  split
  · exact drawsOf_pure none
  · exact drawsOf_text List.mem_cons_self _

theorem drawsOf_flagLines : EditText.DrawsOf [] flagLines := fun cx m =>
  drawsOf_of_gives (gives_flagLines cx m) fun _ _ h => h.1

end Tracing

namespace Observation

theorem drawsOf_pointerReference (isAssigned : Bool) :
    EditText.DrawsOf [.ptr] (pointerReference isAssigned) := by
  intro cx m
  rw [pointerReference]
  split
  · exact drawsOf_pure none
  · refine (drawsOf_draw List.mem_cons_self).bind fun id => ?_
    split <;> exact drawsOf_pure _

theorem drawsOf_memoryReport (cx : EditContext) (n : Node) (type : CType) (address : String) :
    Eval.DrawsOf [.mem] (memoryReport cx n type address) :=
  drawsOf_text List.mem_cons_self _

theorem drawsOf_memoryReference (access : AccessForm) :
    EditText.DrawsOf [.mem] (memoryReference access) := by
  intro cx m
  rw [memoryReference.eq_def]
  split
  · split
    · refine (drawsOf_node "arg").bind fun arg => ?_
      split
      · exact drawsOf_pure none
      · split
        · exact drawsOf_memoryReport ..
        · exact drawsOf_pure none
    all_goals
      split
      · exact drawsOf_pure none
      · exact drawsOf_memoryReport ..
  · exact drawsOf_pure none

theorem drawsOf_variableAddress (scope : String) :
    EditText.DrawsOf [.var] (variableAddress scope) := by
  intro cx m
  rw [variableAddress]
  split
  · exact drawsOf_pure none
  · dsimp only
    split
    · exact drawsOf_pure none
    · exact drawsOf_text List.mem_cons_self _

theorem drawsOf_integerOperands : EditText.DrawsOf [.int] integerOperands := by
  intro cx m
  rw [integerOperands]
  split
  · exact drawsOf_pure none
  · refine (drawsOf_node "left").bind fun left => (drawsOf_node "right").bind fun right => ?_
    split
    · exact drawsOf_pure none
    · split
      · exact drawsOf_pure none
      · split
        · exact drawsOf_pure none
        · exact drawsOf_text List.mem_cons_self _

theorem drawsOf_arrayReference : EditText.DrawsOf [.array] arrayReference := by
  intro cx m
  rw [arrayReference]
  refine (drawsOf_node "var").bind fun var => (drawsOf_node "idx").bind fun idx => ?_
  split
  · exact drawsOf_pure none
  · split
    · exact drawsOf_pure none
    · exact drawsOf_text List.mem_cons_self _

theorem drawsOf_pointerIndexReference :
    EditText.DrawsOf [.ptrIndex] pointerIndexReference := by
  intro cx m
  rw [pointerIndexReference]
  exact (drawsOf_node "offset").bind fun offset => drawsOf_text List.mem_cons_self _

theorem drawsOf_initReference : EditText.DrawsOf [.init] initReference := by
  intro cx m
  rw [initReference]
  split
  · exact drawsOf_pure none
  · split
    · exact drawsOf_text List.mem_cons_self _
    · exact drawsOf_pure none

end Observation

theorem Hooks.drawsOf_closer (hook : Hooks.Hook) :
    EditText.DrawsOf [hook.category] (Hooks.closer hook) :=
  fun _ _ => drawsOf_text List.mem_cons_self _

theorem Hooks.drawsOf_definitions : EditText.DrawsOf [] Hooks.definitions := fun cx m =>
  drawsOf_of_gives (Hooks.gives_definitions cx m) fun _ _ h => h.1

namespace Relocation

variable (lottery : Lottery)

theorem drawsOf_redeclaration : EditText.DrawsOf [.heap] (redeclaration lottery) := by
  intro cx m
  rw [redeclaration]
  split
  · exact drawsOf_pure none
  · split
    · exact drawsOf_text List.mem_cons_self _
    · exact drawsOf_pure _

theorem drawsOf_freeCalls (u : SourceUnit) : ∀ ds : List Declarator,
    Eval.DrawsOf [.free] (freeCalls u ds)
  | [] => drawsOf_pure ""
  | _ :: ds => (drawsOf_draw List.mem_cons_self).bind fun _ =>
      (drawsOf_freeCalls u ds).bind fun _ => drawsOf_pure _

theorem drawsOf_freeing : EditText.DrawsOf [.free] (freeing lottery) := by
  intro cx m
  rw [freeing]
  split
  · exact drawsOf_pure none
  · exact (drawsOf_freeCalls cx.unit _).bind fun _ => drawsOf_pure _

theorem drawsOf_helperLines : EditText.DrawsOf [] helperLines := fun cx m =>
  drawsOf_of_gives (gives_helperLines cx m) fun _ _ h => h.1

end Relocation

/-! ## Rules -/

/-- **Every text of the rule** draws numbers of these categories alone. -/
def Rule.DrawsOf (cs : List Category) (r : Rule) : Prop := ∀ e ∈ r.edits, e.makeText.DrawsOf cs

namespace Rule

theorem DrawsOf.mono (h : r.DrawsOf cs) (hsub : ∀ c ∈ cs, c ∈ ds) : r.DrawsOf ds :=
  fun e he cx m => (h e he cx m).mono hsub

theorem drawsOf_of_edits {edits : List EditTemplate} (hedits : r.edits = edits)
    (h : ∀ e ∈ edits, e.makeText.DrawsOf cs) : r.DrawsOf cs := by
  rw [DrawsOf, hedits]
  exact h

/-- A rule with one template. -/
theorem drawsOf_of_single {e : EditTemplate} (hedits : r.edits = [e])
    (h : e.makeText.DrawsOf cs) : r.DrawsOf cs :=
  drawsOf_of_edits hedits (List.forall_mem_singleton.mpr h)

/-- A rule with two templates. -/
theorem drawsOf_of_pair {e f : EditTemplate} (hedits : r.edits = [e, f])
    (he : e.makeText.DrawsOf cs) (hf : f.makeText.DrawsOf cs) : r.DrawsOf cs :=
  drawsOf_of_edits hedits (List.forall_mem_cons.mpr ⟨he, List.forall_mem_singleton.mpr hf⟩)

/-- A late rule draws nothing. -/
theorem Heads.drawsOf (h : r.Heads) : r.DrawsOf cs := by
  obtain ⟨makeText, hedits, hgives⟩ := h
  exact drawsOf_of_single hedits fun cx m => drawsOf_of_gives (hgives cx m) fun _ _ h => h.1

end Rule

open Rule

theorem Braces.drawsOf_wrapping (hedits : r.edits = []) : (Braces.wrapping r).DrawsOf [] := by
  refine drawsOf_of_pair (e := ⟨.before "stmt", .literal Braces.opening⟩)
    (f := ⟨.after "stmt", .literal Braces.closing⟩) ?_ (EditText.drawsOf_literal _)
    (EditText.drawsOf_literal _)
  show (r.edits ++ [_]) ++ [_] = _
  rw [hedits]
  rfl

theorem Braces.drawsOf_of_mem (hr : r ∈ Braces.labelSet.rules) : r.DrawsOf [] := by
  simp only [Braces.labelSet, RuleSet.rules, List.mem_cons, List.not_mem_nil, or_false] at hr
  rcases hr with rfl | rfl
  all_goals exact Braces.drawsOf_wrapping rfl

theorem Tracing.drawsOf_blockRule : Tracing.blockRule.DrawsOf [.brace] :=
  drawsOf_of_pair rfl Tracing.drawsOf_braceStart (EditText.drawsOf_literal _)

theorem Observation.drawsOf_of_mem_pointerSet (hr : r ∈ Observation.pointerSet.rules) :
    r.DrawsOf [.ptr] := by
  simp only [Observation.pointerSet, RuleSet.rules, List.mem_cons, List.not_mem_nil, or_false] at hr
  rcases hr with rfl | rfl | rfl | rfl
  all_goals exact drawsOf_of_single rfl (Observation.drawsOf_pointerReference _)

theorem Observation.drawsOf_of_mem_memorySet (hr : r ∈ Observation.memorySet.rules) :
    r.DrawsOf [.mem, .var] := by
  have hmem {r : Rule} (access : Observation.AccessForm)
      (h : r.edits = [⟨.before "stmt", Observation.memoryReference access⟩]) :
      r.DrawsOf [.mem, .var] :=
    (drawsOf_of_single h (Observation.drawsOf_memoryReference access)).mono (by decide)
  have hvar {r : Rule} (h : r.DrawsOf [.var]) : r.DrawsOf [.mem, .var] := h.mono (by decide)
  simp only [Observation.memorySet, RuleSet.rules, List.mem_cons, List.not_mem_nil, or_false] at hr
  rcases hr with rfl | rfl | rfl | rfl | rfl
  · exact hmem .dereference rfl
  · exact hmem .field rfl
  · exact hmem .subscript rfl
  · exact hvar (drawsOf_of_single rfl (Observation.drawsOf_variableAddress _))
  · exact hvar (drawsOf_of_single rfl (Observation.drawsOf_variableAddress _))

theorem Hooks.drawsOf_of_wrapped {name : String} (hook : Hooks.Hook)
    (hedits : r.edits = [⟨.before name, .literal Hooks.opener⟩, ⟨.after name, Hooks.closer hook⟩]) :
    r.DrawsOf [hook.category] :=
  drawsOf_of_pair hedits (EditText.drawsOf_literal _) (Hooks.drawsOf_closer hook)

theorem Hooks.drawsOf_of_mem (hr : r ∈ Hooks.pointerSet.rules) : r.DrawsOf [.mutPtr] := by
  simp only [Hooks.pointerSet, RuleSet.rules, List.mem_cons, List.not_mem_nil, or_false] at hr
  rcases hr with rfl | rfl
  all_goals exact Hooks.drawsOf_of_wrapped Hooks.pointerHook rfl

theorem Hooks.drawsOf_integerRule : Hooks.integerRule.DrawsOf [.intOpL, .intOpR] := by
  have hcloser (hook : Hooks.Hook) (h : hook.category ∈ [Category.intOpL, .intOpR]) :
      (Hooks.closer hook).DrawsOf [.intOpL, .intOpR] := fun cx m =>
    (Hooks.drawsOf_closer hook cx m).mono fun c hc => List.mem_singleton.mp hc ▸ h
  exact drawsOf_of_edits rfl <| List.forall_mem_cons.mpr ⟨EditText.drawsOf_literal _,
    List.forall_mem_cons.mpr ⟨hcloser Hooks.leftHook (by decide),
      List.forall_mem_cons.mpr ⟨EditText.drawsOf_literal _,
        List.forall_mem_singleton.mpr (hcloser Hooks.rightHook (by decide))⟩⟩⟩

theorem Relocation.drawsOf_relocationRule (lottery : Relocation.Lottery) :
    (Relocation.relocationRule lottery).DrawsOf [.heap] :=
  drawsOf_of_pair rfl (EditText.drawsOf_literal _) (Relocation.drawsOf_redeclaration lottery)

/-! ## Passes -/

/-- The categories of a mode. -/
def ProbeMode.categories : ProbeMode → List Category
  | .arrayIndex => [.array]
  | .pointerIndex => [.ptrIndex]
  | .arrayPointerIndex => [.array, .ptrIndex]
  | .memory => [.mem, .var]
  | .pointer => [.ptr]
  | .integer | .divider => [.int]
  | .init => [.init]

/-- **The categories of a pass.** -/
def PassKind.categories : PassKind → List Category
  | .braces => []
  | .instrument =>
    [.brace, .varDecl, .inst, .funcEnter, .array, .ptrIndex, .mem, .var, .ptr, .int, .init]
  | .mutate => [.mutArr, .mutPtr, .intOpL, .intOpR]
  | .stackToHeap => [.heap, .free]

theorem Observation.drawsOf_setsOf {s : RuleSet} (hs : s ∈ Observation.setsOf mode)
    (hr : r ∈ s.rules) : r.DrawsOf mode.categories := by
  cases mode <;> simp only [Observation.setsOf, List.mem_cons, List.not_mem_nil, or_false] at hs
  case arrayIndex =>
    subst hs
    rw [RuleSet.eq_of_mem_single hr]
    exact drawsOf_of_single rfl Observation.drawsOf_arrayReference
  case pointerIndex =>
    subst hs
    rw [RuleSet.eq_of_mem_single hr]
    exact drawsOf_of_single rfl Observation.drawsOf_pointerIndexReference
  case arrayPointerIndex =>
    rcases hs with rfl | rfl
    · rw [RuleSet.eq_of_mem_single hr]
      exact (drawsOf_of_single rfl Observation.drawsOf_arrayReference).mono (by decide)
    · rw [RuleSet.eq_of_mem_single hr]
      exact (drawsOf_of_single rfl Observation.drawsOf_pointerIndexReference).mono (by decide)
  case memory => exact Observation.drawsOf_of_mem_memorySet (hs ▸ hr)
  case pointer => exact Observation.drawsOf_of_mem_pointerSet (hs ▸ hr)
  case integer | divider =>
    subst hs
    rw [RuleSet.eq_of_mem_single hr]
    exact drawsOf_of_single rfl Observation.drawsOf_integerOperands
  case init =>
    subst hs
    rw [RuleSet.eq_of_mem_single hr]
    exact drawsOf_of_single rfl Observation.drawsOf_initReference

theorem Tracing.drawsOf_of_mem {mode : Option ProbeMode} (h : r ∈ (Tracing.pass mode).rules) :
    r.DrawsOf PassKind.instrument.categories := by
  obtain ⟨s, hs, hr⟩ := List.mem_flatMap.mp h
  simp only [Tracing.pass, List.append_assoc, List.mem_append, List.mem_cons, List.not_mem_nil,
    or_false] at hs
  rcases hs with (rfl | rfl | rfl) | hs | rfl | rfl
  · exact RuleSet.eq_of_mem_single hr ▸ Tracing.drawsOf_blockRule.mono (by decide)
  · rw [RuleSet.eq_of_mem_single hr]
    exact (drawsOf_of_single rfl Tracing.drawsOf_varDeclMarker).mono (by decide)
  · rw [RuleSet.eq_of_mem_single hr]
    exact (drawsOf_of_single rfl Tracing.drawsOf_siteProbe).mono (by decide)
  · cases mode with
    | none => exact absurd hs List.not_mem_nil
    | some mode =>
      refine (Observation.drawsOf_setsOf hs hr).mono ?_
      cases mode <;> decide
  · rw [RuleSet.eq_of_mem_single hr]
    exact (drawsOf_of_single rfl Tracing.drawsOf_entryMarker).mono (by decide)
  · rw [RuleSet.eq_of_mem_single hr]
    exact (drawsOf_of_single rfl Tracing.drawsOf_flagLines).mono (by decide)

theorem Hooks.drawsOf_of_mem_rules {targets : List HookTarget}
    (hr : r ∈ (Hooks.pass targets).rules) : r.DrawsOf PassKind.mutate.categories := by
  obtain ⟨s, hs, hr⟩ := List.mem_flatMap.mp hr
  rcases List.mem_append.mp hs with hs | hs
  · obtain ⟨target, -, rfl⟩ := List.mem_map.mp hs
    cases target with
    | arrayIndex =>
      rw [RuleSet.eq_of_mem_single hr]
      exact (Hooks.drawsOf_of_wrapped Hooks.arrayHook rfl).mono (by decide)
    | pointer => exact (Hooks.drawsOf_of_mem hr).mono (by decide)
    | integer => exact RuleSet.eq_of_mem_single hr ▸ Hooks.drawsOf_integerRule.mono (by decide)
  · obtain rfl := List.mem_singleton.mp hs
    rw [RuleSet.eq_of_mem_single hr]
    exact (drawsOf_of_single rfl Hooks.drawsOf_definitions).mono (by decide)

theorem Relocation.drawsOf_of_mem {config : RelocationConfig}
    (hr : r ∈ (Relocation.pass config).rules) : r.DrawsOf PassKind.stackToHeap.categories := by
  obtain ⟨s, hs, hr⟩ := List.mem_flatMap.mp hr
  simp only [Relocation.pass, List.mem_append, List.mem_cons, List.not_mem_nil, or_false] at hs
  rcases hs with (rfl | hs) | rfl
  · rw [RuleSet.eq_of_mem_single hr]
    exact (Relocation.drawsOf_relocationRule _).mono (by decide)
  · split at hs
    · obtain rfl := List.mem_singleton.mp hs
      rw [RuleSet.eq_of_mem_single hr]
      exact (drawsOf_of_single rfl (Relocation.drawsOf_freeing _)).mono (by decide)
    · exact absurd hs List.not_mem_nil
  · rw [RuleSet.eq_of_mem_single hr]
    exact (drawsOf_of_single rfl Relocation.drawsOf_helperLines).mono (by decide)

/-- **Each pass draws numbers of its own categories alone.** -/
theorem Pass.drawsOf_ofKind {config : RunSettings} {kind : PassKind}
    (hr : r ∈ (Pass.ofKind config kind).rules) : r.DrawsOf kind.categories := by
  cases kind with
  | braces =>
    obtain ⟨s, hs, hr⟩ := List.mem_flatMap.mp hr
    obtain rfl := List.mem_singleton.mp hs
    simp only [RuleSet.rules, RuleSet.rulesOfAll, List.append_nil, List.mem_append, List.mem_cons,
      List.not_mem_nil, or_false] at hr
    rcases hr with rfl | rfl | rfl | hr
    · exact Braces.drawsOf_wrapping rfl
    · exact Braces.drawsOf_wrapping rfl
    · exact Braces.drawsOf_wrapping rfl
    · exact Braces.drawsOf_of_mem hr
  | instrument => exact Tracing.drawsOf_of_mem hr
  | mutate => exact Hooks.drawsOf_of_mem_rules hr
  | stackToHeap => exact Relocation.drawsOf_of_mem hr

end ProbeWeaver
