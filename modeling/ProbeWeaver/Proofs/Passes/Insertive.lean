import ProbeWeaver.Proofs.Passes.Rules
import ProbeWeaver.Proofs.Rule.Insertive

/-!
# Proofs/Passes/Insertive — every rule of every pass only inserts

Each finder stays in the tree and each text can be made from the names that its rule binds, so the
rules of all passes are insertive (`Pass.insertive_ofKind`).
-/

namespace ProbeWeaver

variable {t : Tree} {r : Rule} {name : String} {bound : String → Bool}

/-! ## Finders stay in the tree -/

theorem Node.PlaceOf.of_statementAtStart? {n a : Node} (h : n.PlaceOf t)
    (ha : n.statementAtStart? = some a) : a.PlaceOf t :=
  h.of_mem_namedChildren (List.mem_of_find?_eq_some ha)

theorem Condition.stays_slotAround : Finder.Stays Condition.slotAround :=
  fun _ hm h => hm.root.of_slotAround? h

theorem Condition.stays_declaration : Finder.Stays Condition.declaration :=
  fun _ hm h => hm.root.of_parent? h

theorem Condition.stays_startOfMain : Finder.Stays Condition.startOfMain := by
  intro u t m n hu hm h
  obtain ⟨main, hmain, h⟩ := Option.bind_eq_some_iff.mp h
  obtain ⟨body, hbody, h⟩ := Option.bind_eq_some_iff.mp h
  have hplace : main.PlaceOf t :=
    (hu ▸ Node.placeOf_root t).of_mem_namedChildren (List.mem_of_find?_eq_some hmain)
  exact (hplace.of_field? hbody).of_statementAtStart? h

theorem Braces.stays_elseBranch : Finder.Stays Braces.elseBranch := by
  intro u t m n hu hm h
  obtain ⟨alternative, halternative, h⟩ := Option.bind_eq_some_iff.mp h
  have hplace := hm.root.of_field? halternative
  split at h
  · exact hplace.of_firstNamed? h
  · obtain rfl := Option.some.inj h
    exact hplace

theorem Braces.stays_labelled : Finder.Stays Braces.labelled :=
  fun _ hm h => hm.root.of_mem_namedChildren (List.mem_of_find?_eq_some h)

theorem Tracing.stays_entryStatement : Finder.Stays Tracing.entryStatement := by
  intro u t m n hu hm h
  obtain ⟨body, hbody, h⟩ := Option.bind_eq_some_iff.mp h
  exact (hm.node? hbody).of_statementAtStart? h

theorem Observation.stays_variableIn (name : String) :
    Finder.Stays (Observation.variableIn name) := by
  intro u t m n hu hm h
  obtain ⟨expr, hexpr, h⟩ := Option.bind_eq_some_iff.mp h
  exact (hm.node? hexpr).of_mem_identifiers (List.mem_of_find?_eq_some h)

theorem Observation.stays_shadowOffset : Finder.Stays Observation.shadowOffset := by
  intro u t m n hu hm h
  obtain ⟨right, hright, h⟩ := Option.bind_eq_some_iff.mp h
  dsimp only at h
  split at h
  · obtain rfl := Option.some.inj h
    exact (hm.node? hright).withoutParens
  · exact nomatch h

theorem Observation.mem_of_guardingIf? {span : Span} {n : Node} : ∀ {outer : List Node},
    Observation.guardingIf? span outer = some n → n ∈ outer
  | a :: outer, h => by
      rw [Observation.guardingIf?] at h
      split at h
      · obtain ⟨condition, -, h⟩ := Option.bind_eq_some_iff.mp h
        split at h
        · obtain rfl := Option.some.inj h
          exact List.mem_cons_self
        · exact nomatch h
      · split at h
        · exact nomatch h
        · exact List.mem_cons_of_mem a (mem_of_guardingIf? h)

theorem Observation.stays_guardingIf : Finder.Stays Observation.guardingIf :=
  fun _ hm h => hm.root.of_mem_ancestors (Observation.mem_of_guardingIf? h)

theorem Relocation.stays_givenName : Finder.Stays Relocation.givenName := by
  intro u t m n hu hm h
  obtain ⟨d, hd, rfl⟩ := Option.map_eq_some_iff.mp h
  obtain ⟨decl, hdecl, hd⟩ := Option.bind_eq_some_iff.mp hd
  exact Declarator.placeOf_name (hm.root.of_parent? hdecl) (List.mem_of_find?_eq_some hd)

/-! ## Texts can be made -/

theorem succeeds_returnSome {α : Type} {x : Eval α} (hx : Succeeds x) (f : α → String) :
    Succeeds (x >>= fun a => pure (some (f a)) : Eval (Option String)) :=
  succeeds_bind hx fun a => succeeds_pure (some (f a))

theorem Hooks.sure_closer (h : Hooks.Hook) : (Hooks.closer h).Sure bound :=
  fun _ _ _ => succeeds_returnSome (succeeds_draw h.category) _

theorem Hooks.sure_definitions : EditText.Sure Hooks.definitions bound := by
  intro cx m _
  rw [Hooks.definitions]
  exact succeeds_ite (fun _ => succeeds_pure _) fun _ => succeeds_pure _

theorem Tracing.sure_braceStart : Tracing.braceStart.Sure bound :=
  fun _ _ _ => succeeds_returnSome (succeeds_draw .brace) _

theorem Tracing.sure_siteProbe : Tracing.siteProbe.Sure bound :=
  fun _ _ _ => succeeds_returnSome (succeeds_draw .inst) _

theorem Tracing.sure_varDeclMarker : Tracing.varDeclMarker.Sure bound := by
  intro cx m _
  rw [Tracing.varDeclMarker]
  split
  · exact succeeds_pure _
  · exact succeeds_returnSome (succeeds_draw .varDecl) _

theorem Tracing.sure_entryMarker : Tracing.entryMarker.Sure bound := by
  intro cx m _
  rw [Tracing.entryMarker]
  split
  · exact succeeds_pure _
  · exact succeeds_returnSome (succeeds_draw .funcEnter) _

theorem Tracing.sure_flagLines : EditText.Sure Tracing.flagLines bound := by
  intro cx m _
  rw [Tracing.flagLines]
  refine succeeds_bind succeeds_get fun numbering => succeeds_ite (fun _ => succeeds_pure _) ?_
  exact fun _ => succeeds_ite (fun _ => succeeds_pure _) fun _ => succeeds_pure _

theorem Observation.sure_pointerReference (isAssigned : Bool) :
    (Observation.pointerReference isAssigned).Sure bound := by
  intro cx m _
  rw [Observation.pointerReference]
  split
  · exact succeeds_pure _
  · refine succeeds_bind (succeeds_draw .ptr) fun id => ?_
    exact succeeds_ite (fun _ => succeeds_pure _) fun _ => succeeds_pure _

theorem Observation.succeeds_memoryReport (cx : EditContext) (n : Node) (type : CType)
    (address : String) : Succeeds (Observation.memoryReport cx n type address) :=
  succeeds_returnSome (succeeds_draw .mem) _

theorem Observation.sure_memoryReference (access : Observation.AccessForm)
    (harg : access = .field → bound "arg" = true) :
    (Observation.memoryReference access).Sure bound := by
  intro cx m hm
  rw [Observation.memoryReference.eq_def]
  refine succeeds_ite (fun _ => ?_) fun _ => succeeds_pure _
  split
  · refine succeeds_bind (succeeds_node hm (harg rfl)) fun arg => ?_
    split
    · exact succeeds_pure _
    · exact succeeds_ite (fun _ => succeeds_memoryReport _ _ _ _) fun _ => succeeds_pure _
  all_goals
    split
    · exact succeeds_pure _
    · exact succeeds_memoryReport _ _ _ _

theorem Observation.sure_variableAddress (scope : String) :
    (Observation.variableAddress scope).Sure bound := by
  intro cx m _
  rw [Observation.variableAddress]
  split
  · exact succeeds_pure _
  · refine succeeds_ite (fun _ => succeeds_pure _) fun _ => ?_
    exact succeeds_returnSome (succeeds_draw .var) _

theorem Observation.sure_integerOperands (hleft : bound "left" = true)
    (hright : bound "right" = true) : Observation.integerOperands.Sure bound := by
  intro cx m hm
  rw [Observation.integerOperands]
  refine succeeds_ite (fun _ => succeeds_pure _) fun _ => ?_
  refine succeeds_bind (succeeds_node hm hleft) fun left => ?_
  refine succeeds_bind (succeeds_node hm hright) fun right => ?_
  split
  · exact succeeds_pure _
  · split
    · exact succeeds_pure _
    · refine succeeds_ite (fun _ => succeeds_pure _) fun _ => ?_
      exact succeeds_returnSome (succeeds_draw .int) _

theorem Observation.sure_arrayReference (hvar : bound "var" = true) (hidx : bound "idx" = true) :
    Observation.arrayReference.Sure bound := by
  intro cx m hm
  rw [Observation.arrayReference]
  refine succeeds_bind (succeeds_node hm hvar) fun var => ?_
  refine succeeds_bind (succeeds_node hm hidx) fun idx => ?_
  split
  · exact succeeds_pure _
  · refine succeeds_ite (fun _ => succeeds_pure _) fun _ => ?_
    exact succeeds_returnSome (succeeds_draw .array) _

theorem Observation.sure_pointerIndexReference (hoffset : bound "offset" = true) :
    Observation.pointerIndexReference.Sure bound := by
  intro cx m hm
  rw [Observation.pointerIndexReference]
  refine succeeds_bind (succeeds_node hm hoffset) fun offset => ?_
  exact succeeds_returnSome (succeeds_draw .ptrIndex) _

theorem Observation.sure_initReference : Observation.initReference.Sure bound := by
  intro cx m _
  rw [Observation.initReference]
  split
  · exact succeeds_pure _
  · refine succeeds_ite (fun _ => ?_) fun _ => succeeds_pure _
    exact succeeds_returnSome (succeeds_draw .init) _

theorem Relocation.sure_redeclaration (lottery : Relocation.Lottery) :
    (Relocation.redeclaration lottery).Sure bound := by
  intro cx m _
  rw [Relocation.redeclaration]
  split
  · exact succeeds_pure _
  · refine succeeds_ite (fun _ => ?_) fun _ => succeeds_pure _
    exact succeeds_returnSome (succeeds_draw .heap) _

theorem Relocation.succeeds_freeCalls (u : SourceUnit) :
    ∀ ds : List Declarator, Succeeds (Relocation.freeCalls u ds)
  | [] => succeeds_pure ""
  | _ :: ds => succeeds_bind (succeeds_draw .free) fun _ =>
      succeeds_bind (Relocation.succeeds_freeCalls u ds) fun _ => succeeds_pure _

theorem Relocation.sure_freeing (lottery : Relocation.Lottery) :
    (Relocation.freeing lottery).Sure bound := by
  intro cx m _
  rw [Relocation.freeing]
  refine succeeds_ite (fun _ => succeeds_pure _) fun _ => ?_
  exact succeeds_returnSome (Relocation.succeeds_freeCalls _ _) _

theorem Relocation.sure_helperLines : EditText.Sure Relocation.helperLines bound := by
  intro cx m _
  rw [Relocation.helperLines]
  refine succeeds_bind succeeds_get fun numbering => succeeds_ite (fun _ => succeeds_pure _) ?_
  exact fun _ => succeeds_ite (fun _ => succeeds_pure _) fun _ => succeeds_pure _

/-! ## Rules insert -/

/-- Every rule of the set is insertive. -/
def RuleSet.Insertive (s : RuleSet) : Prop := ∀ r ∈ s.rules, r.Insertive

/-- Every rule of the pass is insertive. -/
def Pass.Insertive (p : Pass) : Prop := ∀ s ∈ p.sets, s.Insertive

theorem Pass.Insertive.of_mem_rules {p : Pass} (h : p.Insertive) (hr : r ∈ p.rules) :
    r.Insertive := by
  obtain ⟨s, hs, hr⟩ := List.mem_flatMap.mp hr
  exact h s hs r hr

/-- **The visits of an insertive pass** can be listed. -/
theorem Pass.Insertive.exists_visits {p : Pass} {u : SourceUnit} (h : p.Insertive)
    (hu : u.root = .root t) (phase : Phase) : ∃ vs, p.visits u phase = .ok vs := by
  refine Pass.exists_visits (fun r hr => ?_) phase
  obtain ⟨ms, hms, -⟩ := (h.of_mem_rules hr).exists_matchesIn hu
  exact ⟨ms, hms⟩

/-- Most rules name the slot around what they are about. -/
theorem insertive_slot (name : String) (p : Pattern) :
    ((Rule.ofPattern name p).bind "stmt" Condition.slotAround).Insertive :=
  (Rule.insertive_ofPattern name p).bind _ Condition.stays_slotAround

theorem Braces.insertive_wrapping (h : r.Insertive) (hname : r.binds "stmt" = true) :
    (Braces.wrapping r).Insertive :=
  ((h.filter _).filter _).writeBefore hname (EditText.sure_literal _ _)
    |>.writeAfter hname (EditText.sure_literal _ _)

theorem Braces.insertive_thenRule : Braces.thenRule.Insertive :=
  Braces.insertive_wrapping (Rule.insertive_ofPattern _ _) (by decide)

theorem Braces.insertive_elseRule : Braces.elseRule.Insertive :=
  Braces.insertive_wrapping ((Rule.insertive_ofPattern _ _).bind _ Braces.stays_elseBranch)
    (by decide)

theorem Braces.insertive_loopRule : Braces.loopRule.Insertive :=
  Braces.insertive_wrapping (Rule.insertive_ofPattern _ _) (by decide)

theorem Braces.insertive_of_mem (hr : r ∈ Braces.labelSet.rules) : r.Insertive := by
  simp only [Braces.labelSet, RuleSet.rules, List.mem_cons, List.not_mem_nil, or_false] at hr
  rcases hr with rfl | rfl
  all_goals
    exact Braces.insertive_wrapping ((Rule.insertive_ofPattern _ _).bind _ Braces.stays_labelled)
      (by decide)

theorem Hooks.insertive_wrapping (h : r.Insertive) (hname : r.binds name = true)
    (hook : Hooks.Hook) : (Hooks.wrapping r name hook).Insertive :=
  (h.writeBefore hname (EditText.sure_literal _ _)).writeAfter hname (Hooks.sure_closer hook)

theorem Hooks.insertive_arrayIndexRule : Hooks.arrayIndexRule.Insertive :=
  Hooks.insertive_wrapping
    ((Rule.insertive_ofPattern _ _).filter _ |>.filter _ |>.filter _ |>.filter _ |>.filter _)
    (by decide) _

theorem Hooks.insertive_integerRule : Hooks.integerRule.Insertive :=
  Hooks.insertive_wrapping
    (Hooks.insertive_wrapping ((Rule.insertive_ofPattern _ _).filter _ |>.filter _ |>.filter _)
      (by decide) _) (by decide) _

theorem Hooks.insertive_of_mem (hr : r ∈ Hooks.pointerSet.rules) : r.Insertive := by
  simp only [Hooks.pointerSet, RuleSet.rules, List.mem_cons, List.not_mem_nil, or_false] at hr
  rcases hr with rfl | rfl
  · exact Hooks.insertive_wrapping
      ((insertive_slot _ _).filter _ |>.filter _ |>.filter _ |>.filter _ |>.filter _) (by decide) _
  · exact Hooks.insertive_wrapping
      ((insertive_slot _ _).filter _ |>.filter _ |>.filter _) (by decide) _

theorem Hooks.insertive_definitionRule : Hooks.definitionRule.Insertive :=
  (Rule.insertive_ofPattern _ _).writeAtStart Hooks.sure_definitions |>.lately

theorem Observation.insertive_of_mem_pointerSet (hr : r ∈ Observation.pointerSet.rules) :
    r.Insertive := by
  simp only [Observation.pointerSet, RuleSet.rules, List.mem_cons, List.not_mem_nil, or_false] at hr
  rcases hr with rfl | rfl | rfl | rfl
  · exact (insertive_slot _ _).filter _ |>.filter _ |>.filter _ |>.filter _ |>.filter _ |>.filter _
      |>.filter _ |>.filter _ |>.filter _ |>.filter _
      |>.writeBefore (by decide) (Observation.sure_pointerReference false)
  · exact (insertive_slot _ _).filter _ |>.filter _ |>.filter _ |>.filter _ |>.filter _
      |>.writeBefore (by decide) (Observation.sure_pointerReference true)
  · exact (insertive_slot _ _).filter _ |>.filter _ |>.filter _ |>.filter _ |>.filter _ |>.filter _
      |>.writeBefore (by decide) (Observation.sure_pointerReference false)
  · exact (insertive_slot _ _).filter _ |>.filter _ |>.filter _ |>.filter _ |>.filter _
      |>.writeBefore (by decide) (Observation.sure_pointerReference true)

theorem Observation.insertive_memoryAccessRule (name : String) (p : Pattern)
    (access : Observation.AccessForm)
    (harg : access = .field → (Observation.memoryAccessRule name p access).binds "arg" = true) :
    (Observation.memoryAccessRule name p access).Insertive :=
  (insertive_slot name p).filter _ |>.filter _ |>.filter _ |>.filter _ |>.filter _
    |>.writeBefore (Bool.or_eq_true_iff.mpr (.inr rfl))
      (Observation.sure_memoryReference access harg)

theorem Observation.insertive_of_mem_memorySet (hr : r ∈ Observation.memorySet.rules) :
    r.Insertive := by
  simp only [Observation.memorySet, RuleSet.rules, List.mem_cons, List.not_mem_nil, or_false] at hr
  rcases hr with rfl | rfl | rfl | rfl | rfl
  · exact (Observation.insertive_memoryAccessRule _ _ .dereference nofun).filter _
  · exact Observation.insertive_memoryAccessRule _ _ .field fun _ => by decide
  · exact (Observation.insertive_memoryAccessRule _ _ .subscript nofun).filter _ |>.filter _
  · exact (Rule.insertive_ofPattern _ _).bind _ Condition.stays_declaration
      |>.filter _ |>.filter _ |>.filter _ |>.filter _
      |>.writeAfter (by decide) (Observation.sure_variableAddress _)
  · exact (Rule.insertive_ofPattern _ _).bind _ Condition.stays_startOfMain
      |>.filter _ |>.filter _ |>.filter _
      |>.writeBefore (by decide) (Observation.sure_variableAddress _)

theorem Observation.insertive_integerRule : Observation.integerRule.Insertive :=
  (insertive_slot _ _).filter _ |>.filter _ |>.filter _ |>.filter _ |>.filter _
    |>.writeBefore (by decide) (Observation.sure_integerOperands (by decide) (by decide))

theorem Observation.insertive_dividerRule : Observation.dividerRule.Insertive :=
  (insertive_slot _ _).filter _ |>.filter _ |>.filter _ |>.filter _
    |>.writeBefore (by decide) (Observation.sure_integerOperands (by decide) (by decide))

theorem Observation.insertive_arrayIndexRule : Observation.arrayIndexRule.Insertive :=
  (insertive_slot _ _).bind _ (Observation.stays_variableIn _)
    |>.bind _ (Observation.stays_variableIn _)
    |>.filter _ |>.filter _ |>.filter _ |>.filter _
    |>.writeBefore (by decide) (Observation.sure_arrayReference (by decide) (by decide))

theorem Observation.insertive_pointerIndexRule : Observation.pointerIndexRule.Insertive :=
  (insertive_slot _ _).bind _ Observation.stays_shadowOffset |>.filter _ |>.filter _ |>.filter _
    |>.writeBefore (by decide) (Observation.sure_pointerIndexReference (by decide))

theorem Observation.insertive_initRule : Observation.initRule.Insertive :=
  (Rule.insertive_ofPattern _ _).bind _ Observation.stays_guardingIf |>.filter _ |>.filter _
    |>.writeBefore (by decide) Observation.sure_initReference

theorem Tracing.insertive_blockRule : Tracing.blockRule.Insertive :=
  (Rule.insertive_ofPattern _ _).filter _ |>.filter _
    |>.writeBefore (by decide) Tracing.sure_braceStart
    |>.writeAfter (by decide) (EditText.sure_literal _ _)

theorem Tracing.insertive_declarationRule : Tracing.declarationRule.Insertive :=
  (insertive_slot _ _).filter _ |>.filter _ |>.writeBefore (by decide) Tracing.sure_varDeclMarker

theorem Tracing.insertive_siteRule : Tracing.siteRule.Insertive :=
  (Rule.insertive_ofPattern _ _).filter _ |>.filter _ |>.filter _
    |>.writeBefore (by decide) Tracing.sure_siteProbe

theorem Tracing.insertive_entryRule : Tracing.entryRule.Insertive :=
  (Rule.insertive_ofPattern _ _).bind _ Tracing.stays_entryStatement |>.filter _ |>.filter _
    |>.writeBefore (by decide) Tracing.sure_entryMarker

theorem Tracing.insertive_flagRule : Tracing.flagRule.Insertive :=
  (Rule.insertive_ofPattern _ _).writeAtStart Tracing.sure_flagLines |>.lately

theorem Relocation.insertive_relocationRule (lottery : Relocation.Lottery) :
    (Relocation.relocationRule lottery).Insertive :=
  (Rule.insertive_ofPattern _ _).bind _ Condition.stays_declaration
    |>.bind _ Relocation.stays_givenName |>.filter _ |>.filter _ |>.filter _
    |>.writeBefore (by decide) (EditText.sure_literal _ _)
    |>.writeAfter (by decide) (Relocation.sure_redeclaration lottery)

theorem Relocation.insertive_freeRule (lottery : Relocation.Lottery) :
    (Relocation.freeRule lottery).Insertive :=
  (Rule.insertive_ofPattern _ _).filter _ |>.filter _
    |>.writeBefore (by decide) (Relocation.sure_freeing lottery)

theorem Relocation.insertive_helperRule : Relocation.helperRule.Insertive :=
  (Rule.insertive_ofPattern _ _).writeAtStart Relocation.sure_helperLines |>.lately

/-- **Every listed rule** only inserts. -/
theorem Rule.Listed.insertive (h : r.Listed) : r.Insertive := by
  cases h with
  | thenBranch => exact Braces.insertive_thenRule
  | elseBranch => exact Braces.insertive_elseRule
  | loopBody => exact Braces.insertive_loopRule
  | labelled mem => exact Braces.insertive_of_mem mem
  | block => exact Tracing.insertive_blockRule
  | declaration => exact Tracing.insertive_declarationRule
  | site => exact Tracing.insertive_siteRule
  | entry => exact Tracing.insertive_entryRule
  | flags => exact Tracing.insertive_flagRule
  | arrayIndex => exact Observation.insertive_arrayIndexRule
  | pointerIndex => exact Observation.insertive_pointerIndexRule
  | memory mem => exact Observation.insertive_of_mem_memorySet mem
  | pointer mem => exact Observation.insertive_of_mem_pointerSet mem
  | integer => exact Observation.insertive_integerRule
  | divider => exact Observation.insertive_dividerRule
  | init => exact Observation.insertive_initRule
  | hookedIndex => exact Hooks.insertive_arrayIndexRule
  | hookedPointer mem => exact Hooks.insertive_of_mem mem
  | hookedOperands => exact Hooks.insertive_integerRule
  | definitions => exact Hooks.insertive_definitionRule
  | relocation lottery => exact Relocation.insertive_relocationRule lottery
  | free lottery => exact Relocation.insertive_freeRule lottery
  | helpers => exact Relocation.insertive_helperRule

/-- **Every pass only inserts**, whatever the configuration. -/
theorem Pass.insertive_ofKind (config : RunSettings) (kind : PassKind) :
    (Pass.ofKind config kind).Insertive :=
  fun s hs _ hr => (Pass.listed_of_mem (List.mem_flatMap.mpr ⟨s, hs, hr⟩)).insertive

end ProbeWeaver
