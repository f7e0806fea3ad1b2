import ProbeWeaver.Proofs.Passes.Anchors
import ProbeWeaver.Proofs.Passes.HookOrder
import ProbeWeaver.Proofs.Tree.Controls

/-!
# Proofs/Passes/Statements — rules without hooks insert at statements

But for the rules of hooks, every rule goes by statements: by the statement itself, a part of one, or
the name that a declaration gives.  So an expression that holds no statement has no such place
strictly inside (`Rule.Listed.outside`).
-/

namespace ProbeWeaver

open Node

variable {t : Tree} {u : SourceUnit} {r : Rule} {m : Match} {n p a : Node} {name : String}
  {source : String}

/-! ## Places covered by statements -/

/-- **A place that a hook may be around**: a part of one of the expressions that targets are about. -/
def Hooks.IsHookable (n : Node) : Prop :=
  ∃ p, n.parent? = some p ∧ ∃ target : HookTarget, p.kind ∈ target.kinds

namespace Node

/-- **The place is covered by statements**: every hookable place that it is strictly inside of holds
one. -/
def IsCovered (n : Node) : Prop :=
  ∀ ⦃t : Tree⦄ ⦃a : Node⦄, n.PlaceOf t → a.PlaceOf t → Hooks.IsHookable a → n.isWithin a = true →
    n = a ∨ ∃ s : Node, s.PlaceOf t ∧ s.isWithin a = true ∧ s.isStatement = true

theorem isCovered_of_isStatement (h : n.isStatement = true) : n.IsCovered :=
  fun _ _ hn _ _ hwithin => .inr ⟨n, hn, hwithin, h⟩

theorem not_isHookable_of_kind (hp : n.parent? = some p)
    (hkind : ∀ target : HookTarget, p.kind ∉ target.kinds) : ¬ Hooks.IsHookable n := by
  rintro ⟨q, hq, target, htarget⟩
  obtain rfl := Option.some.inj (hp.symm.trans hq)
  exact hkind target htarget

/-- Right below what is covered and not hookable itself. -/
theorem IsCovered.child (h : p.IsCovered) (hnot : ¬ Hooks.IsHookable p) (hp : n.parent? = some p) :
    n.IsCovered := by
  intro t a hn ha hhookable hwithin
  cases n with
  | root v => exact nomatch hp
  | child q i v =>
    obtain rfl := Option.some.inj hp
    rcases isWithin_child_iff.mp hwithin with heq | hwithin
    · exact .inl (hn.eq_of_path_eq ha heq.symm)
    · rcases h hn.1 ha hhookable hwithin with rfl | hstatement
      · exact absurd hhookable hnot
      · exact .inr hstatement

/-- Right below a statement. -/
theorem isCovered_of_parent? (hp : n.parent? = some p) (h : p.isStatement = true) :
    n.IsCovered := by
  intro t a hn ha _ hwithin
  cases n with
  | root v => exact nomatch hp
  | child q i v =>
    obtain rfl := Option.some.inj hp
    rcases isWithin_child_iff.mp hwithin with heq | hwithin
    · exact .inl (hn.eq_of_path_eq ha heq.symm)
    · exact .inr ⟨q, hn.1, hwithin, h⟩

theorem isCovered_of_statementAtStart? (h : p.statementAtStart? = some n) : n.IsCovered :=
  isCovered_of_isStatement (List.find?_some h)

theorem isCovered_of_slotAround? (h : n.slotAround? = some p) : p.IsCovered := by
  have hslot : p.isSlot = true := List.find?_some h
  exact isCovered_of_isStatement (Bool.and_eq_true_iff.mp hslot).1

end Node

/-! ## Declared names -/

namespace Declarator

/-- What hands a name on is no expression of a target. -/
theorem not_mem_kinds_of_peel {base : CType} (h : (peel source n base).1 = some a)
    (target : HookTarget) : n.kind ∉ target.kinds := by
  rw [peel] at h
  split at h
  all_goals
    first
    | next hkind =>
      rw [hkind]
      cases target <;> decide
    | contradiction

/-- **The name that a declarator gives** is covered, if the declarator is. -/
theorem isCovered_peel {n : Node} {base : CType} (hn : n.IsCovered) (hnot : ¬ Hooks.IsHookable n)
    (hname : (peel source n base).1 = some a) : a.IsCovered := by
  have hkind := not_mem_kinds_of_peel hname
  rcases peel_fst_cases hname with ⟨rfl, -⟩ | ⟨inner, base', hinner | hinner, hname⟩
  · exact hn
  · have hp := parent?_of_mem_children (List.mem_of_find?_eq_some hinner)
    exact isCovered_peel (hn.child hnot hp) (not_isHookable_of_kind hp hkind) hname
  · have hp := parent?_of_mem_children (List.mem_filter.mp (List.mem_of_head? hinner)).1
    exact isCovered_peel (hn.child hnot hp) (not_isHookable_of_kind hp hkind) hname
termination_by n.size
decreasing_by
  · exact Node.size_lt_of_field? hinner
  · exact Node.size_lt_of_firstNamed? hinner

theorem isCovered_name {decl : Node} {d : Declarator} (hdecl : decl.kind = .declaration)
    (hd : d ∈ declarators source decl) : d.name.IsCovered := by
  obtain ⟨hn, base, hpeel⟩ := exists_peel_of_mem_declarators hd
  have hp := parent?_of_mem_children (List.mem_filter.mp hn).1
  refine isCovered_peel (isCovered_of_parent? hp ?_) (not_isHookable_of_kind hp fun target => ?_) hpeel
  · rw [isStatement, hdecl]
    rfl
  · rw [hdecl]
    cases target <;> decide

end Declarator

/-! ## Rules that keep to statements -/

namespace Rule

/-- **The rule keeps to statements**: what it inserts goes to the start of the file or to an edge of a
place that is covered by statements. -/
def KeepsToStatements (r : Rule) : Prop :=
  ∀ e ∈ r.edits, e.anchor = .startOfFile ∨
    ∃ name, (e.anchor = .before name ∨ e.anchor = .after name) ∧ r.Means name IsCovered

/-- A name that one finder gives. -/
theorem means_of_mem_finders {P : Node → Prop} {finder : Finder}
    (honce : ("root" :: r.finders.map Prod.fst).Nodup) (hfinder : (name, finder) ∈ r.finders)
    (h : ∀ {u : SourceUnit} {m : Match} {n : Node}, finder m u = some n → P n) :
    r.Means name P := by
  intro u t m n hu hm hn
  obtain ⟨m₀, -, hfound⟩ := hm.of_mem_finders hfinder honce
  exact h (hfound.symm.trans hn)

/-- What the pattern says of the main node. -/
theorem Offers.names_root {p : Pattern} {ruleName : String} (hu : u.root = .root t)
    (h : (ofPattern ruleName p).Offers u m) : p.Names "root" m.root :=
  h.names hu rfl

/-- A rule that goes by the slot above. -/
theorem means_slot (honce : ("root" :: r.finders.map Prod.fst).Nodup)
    (hfinder : (name, Condition.slotAround) ∈ r.finders) : r.Means name IsCovered :=
  means_of_mem_finders honce hfinder fun h => isCovered_of_slotAround? h

theorem keepsToStatements_before {makeText : EditText} (hedits : r.edits = [⟨.before name, makeText⟩])
    (h : r.Means name IsCovered) : r.KeepsToStatements := by
  rw [KeepsToStatements, hedits]
  exact List.forall_mem_singleton.mpr (.inr ⟨name, .inl rfl, h⟩)

theorem keepsToStatements_around {text text' : EditText}
    (hedits : r.edits = [⟨.before name, text⟩, ⟨.after name, text'⟩]) (h : r.Means name IsCovered) :
    r.KeepsToStatements := by
  rw [KeepsToStatements, hedits]
  exact List.forall_mem_cons.mpr ⟨.inr ⟨name, .inl rfl, h⟩,
    List.forall_mem_singleton.mpr (.inr ⟨name, .inr rfl, h⟩)⟩

theorem keepsToStatements_start {makeText : EditText} (hedits : r.edits = [⟨.startOfFile, makeText⟩]) :
    r.KeepsToStatements := by
  rw [KeepsToStatements, hedits]
  exact List.forall_mem_singleton.mpr (.inl rfl)

end Rule

namespace Condition

/-- The pattern of any of some kinds asks for nothing else. -/
theorem shapes_anyOf (kinds : List Kind) :
    (anyOf kinds).shapes = kinds.map fun k => .node (.kind k) none ["root"] [] := by
  have hshapes : ∀ kinds : List Kind, Pattern.shapesOfAny (kinds.map fun k => .construct k []) =
      kinds.map fun k => .node (.kind k) none [] [] := by
    intro kinds
    induction kinds with
    | nil => rfl
    | cons k kinds ih =>
      cases kinds with
      | nil => rfl
      | cons k' kinds =>
        have hcons : Pattern.shapesOfAny ((k :: k' :: kinds).map fun k => .construct k []) =
            .node (.kind k) none [] [] ::
              Pattern.shapesOfAny ((k' :: kinds).map fun k => .construct k []) := rfl
        rw [hcons, ih]
        rfl
  show (Pattern.shapesOfAny _).map _ = _
  rw [hshapes, List.map_map]
  rfl

theorem kind_of_names_anyOf {kinds : List Kind} (h : (anyOf kinds).Names name n) :
    n.kind ∈ kinds := by
  obtain ⟨p, h⟩ := h
  rw [shapes_anyOf] at h
  induction kinds with
  | nil => exact h.elim
  | cons k kinds ih =>
    rcases h with ⟨hasks, ⟨-, rfl⟩ | ⟨c, -, hnone⟩⟩ | h
    · exact hasks.kind k rfl ▸ List.mem_cons_self
    · exact hnone.elim
    · exact List.mem_cons_of_mem k (ih h)

/-- A declarator stands right in a declaration. -/
theorem parent?_of_names_eachDeclarator (h : eachDeclarator.Names name n) :
    ∃ decl, n.parent? = some decl ∧ decl.kind = .declaration := by
  obtain ⟨p, ⟨hasks, ⟨hname, -⟩ | ⟨c, hc, hbelow⟩⟩ | hnone⟩ := h
  · exact absurd hname Bool.false_ne_true
  · rcases hbelow with (⟨-, ⟨-, rfl⟩ | ⟨c', -, hnone⟩⟩ | hnone) | hnone
    · exact ⟨p, parent?_of_mem_children hc, hasks.kind _ rfl⟩
    all_goals exact hnone.elim
  · exact hnone.elim

end Condition

/-! ## Braces -/

theorem Braces.keepsToStatements_wrapping (hedits : r.edits = [])
    (h : r.Means "stmt" IsCovered) : (Braces.wrapping r).KeepsToStatements := by
  have hwrapped : (Braces.wrapping r).edits =
      r.edits ++ [⟨.before "stmt", .literal Braces.opening⟩] ++
        [⟨.after "stmt", .literal Braces.closing⟩] := rfl
  rw [hedits] at hwrapped
  exact Rule.keepsToStatements_around hwrapped h

theorem Braces.keepsToStatements_thenRule : Braces.thenRule.KeepsToStatements := by
  refine Braces.keepsToStatements_wrapping rfl (Rule.means_ofPattern _ fun n hn => ?_)
  obtain ⟨p, hp, hkind⟩ : ∃ p, n.parent? = some p ∧ p.kind = .ifStatement :=
    @Pattern.exists_parent?_of_names _ _ .ifStatement [(.consequence, "stmt")] (by decide) hn
  exact isCovered_of_parent? hp (by rw [isStatement, hkind]; rfl)

/-- The statement that an `else` governs stands right below the `if`, or below its clause. -/
theorem Node.isCovered_of_elseBranch? (hp : p.kind = .ifStatement) (h : p.elseBranch? = some n) :
    n.IsCovered := by
  obtain ⟨alternative, halternative, hbranch⟩ := elseBranch?_cases h
  have habove := parent?_of_mem_children (List.mem_of_find?_eq_some halternative)
  have hcovered : alternative.IsCovered :=
    isCovered_of_parent? habove (by rw [isStatement, hp]; rfl)
  rcases hbranch with ⟨-, hfirst⟩ | ⟨-, rfl⟩
  · refine hcovered.child (not_isHookable_of_kind habove fun target => ?_)
      (parent?_of_mem_children (List.mem_filter.mp (List.mem_of_head? hfirst)).1)
    rw [hp]
    cases target <;> decide
  · exact hcovered

theorem Braces.keepsToStatements_elseRule : Braces.elseRule.KeepsToStatements := by
  refine Braces.keepsToStatements_wrapping rfl (Rule.means_bind (by decide) fun hu hm hn => ?_)
  have hroot := hm.names_root hu
  refine Node.isCovered_of_elseBranch? ?_ hn
  obtain ⟨p, ⟨hasks, ⟨-, hroot⟩ | ⟨c, -, hc⟩⟩ | hnone⟩ := hroot
  · exact hroot ▸ hasks.kind _ rfl
  · rcases hc with (⟨-, ⟨hname, -⟩ | ⟨c', -, hnone⟩⟩ | hnone) | hnone
    · exact absurd hname Bool.false_ne_true
    all_goals exact hnone.elim
  · exact hnone.elim

theorem Braces.keepsToStatements_loopRule : Braces.loopRule.KeepsToStatements := by
  refine Braces.keepsToStatements_wrapping rfl (Rule.means_ofPattern _ fun n hn => ?_)
  have hloop : ∀ k ∈ [Kind.forStatement, .whileStatement, .doStatement], ∀ p : Node,
      Shape.Names "stmt" n (.node (.kind k) none ["root"]
        [[.node .anyNamed (some .body) ["stmt"] []]]) p → n.IsCovered := by
    intro k hk p hn
    obtain ⟨hasks, ⟨hname, -⟩ | ⟨c, hc, hbelow⟩⟩ := hn
    · exact absurd hname (by decide)
    · rcases hbelow with (⟨-, ⟨-, rfl⟩ | ⟨c', -, hnone⟩⟩ | hnone) | hnone
      · refine isCovered_of_parent? (parent?_of_mem_children hc) ?_
        have hstatement : ∀ k ∈ [Kind.forStatement, .whileStatement, .doStatement],
            k.isStatement = true := by decide
        rw [isStatement, hasks.kind k rfl, hstatement k hk]
      all_goals exact hnone.elim
  obtain ⟨p, hn | hn | hn | hnone⟩ := hn
  · exact hloop .forStatement (.head _) p hn
  · exact hloop .whileStatement (.tail _ (.head _)) p hn
  · exact hloop .doStatement (.tail _ (.tail _ (.head _))) p hn
  · exact hnone.elim

theorem Braces.keepsToStatements_of_mem (hr : r ∈ Braces.labelSet.rules) : r.KeepsToStatements := by
  have hlabelled {n : Node} {m : Match} {u : SourceUnit} (h : Braces.labelled m u = some n) :
      n.IsCovered := by
    rw [Braces.labelled] at h
    have hfound := List.find?_some h
    exact isCovered_of_isStatement (Bool.and_eq_true_iff.mp hfound).1
  simp only [Braces.labelSet, RuleSet.rules, List.mem_cons, List.not_mem_nil, or_false] at hr
  rcases hr with rfl | rfl
  all_goals
    exact Braces.keepsToStatements_wrapping rfl
      (Rule.means_bind (by decide) fun _ _ hn => hlabelled hn)

/-! ## Tracing and observation -/

theorem Rule.means_anyOf {kinds : List Kind} (ruleName name : String)
    (h : ∀ k ∈ kinds, k.isStatement = true) :
    (ofPattern ruleName (Condition.anyOf kinds)).Means name IsCovered :=
  means_ofPattern ruleName fun _ hn =>
    isCovered_of_isStatement (h _ (Condition.kind_of_names_anyOf hn))

theorem Tracing.keepsToStatements_blockRule : Tracing.blockRule.KeepsToStatements :=
  Rule.keepsToStatements_around rfl (Rule.means_anyOf "log-braces" "root" (by decide))

theorem Tracing.keepsToStatements_siteRule : Tracing.siteRule.KeepsToStatements :=
  Rule.keepsToStatements_before rfl
    (Rule.means_anyOf "log-insertion-site" "root" (by decide))

theorem Tracing.keepsToStatements_entryRule : Tracing.entryRule.KeepsToStatements := by
  refine Rule.keepsToStatements_before rfl (Rule.means_of_mem_finders (by decide)
    (List.mem_singleton.mpr rfl) fun h => ?_)
  obtain ⟨body, -, h⟩ := Option.bind_eq_some_iff.mp h
  exact isCovered_of_statementAtStart? h

theorem Condition.isCovered_of_startOfMain (h : Condition.startOfMain m u = some n) :
    n.IsCovered := by
  obtain ⟨main, -, h⟩ := Option.bind_eq_some_iff.mp h
  obtain ⟨body, -, h⟩ := Option.bind_eq_some_iff.mp h
  exact isCovered_of_statementAtStart? h

/-- The declaration of a declarator. -/
theorem Condition.means_declaration (ruleName : String) :
    ((Rule.ofPattern ruleName Condition.eachDeclarator).bind "decl" Condition.declaration).Means
      "decl" IsCovered := by
  refine Rule.means_bind (by decide) fun hu hm hn => ?_
  obtain ⟨decl, hdecl, hkind⟩ :=
    Condition.parent?_of_names_eachDeclarator (hm.names_root hu)
  obtain rfl := Option.some.inj (hdecl.symm.trans hn)
  exact isCovered_of_isStatement (by rw [isStatement, hkind]; rfl)

theorem Observation.keepsToStatements_of_mem_memorySet (hr : r ∈ Observation.memorySet.rules) :
    r.KeepsToStatements := by
  simp only [Observation.memorySet, RuleSet.rules, List.mem_cons, List.not_mem_nil, or_false] at hr
  rcases hr with rfl | rfl | rfl | rfl | rfl
  · exact Rule.keepsToStatements_before rfl (Rule.means_slot (by decide) List.mem_cons_self)
  · exact Rule.keepsToStatements_before rfl (Rule.means_slot (by decide) List.mem_cons_self)
  · exact Rule.keepsToStatements_before rfl (Rule.means_slot (by decide) List.mem_cons_self)
  · exact List.forall_mem_singleton.mpr
      (.inr ⟨"decl", .inr rfl, Condition.means_declaration "value-memory-local"⟩)
  · exact Rule.keepsToStatements_before rfl (Rule.means_of_mem_finders (by decide)
      List.mem_cons_self fun h => Condition.isCovered_of_startOfMain h)

theorem Observation.keepsToStatements_of_mem_pointerSet (hr : r ∈ Observation.pointerSet.rules) :
    r.KeepsToStatements := by
  simp only [Observation.pointerSet, RuleSet.rules, List.mem_cons, List.not_mem_nil, or_false] at hr
  rcases hr with rfl | rfl | rfl | rfl
  all_goals
    exact Rule.keepsToStatements_before rfl (Rule.means_slot (by decide) List.mem_cons_self)

theorem Observation.keepsToStatements_initRule : Observation.initRule.KeepsToStatements := by
  refine Rule.keepsToStatements_before rfl (Rule.means_of_mem_finders (by decide)
    List.mem_cons_self fun h => isCovered_of_isStatement ?_)
  rw [isStatement, Observation.kind_of_guardingIf? h]
  rfl

/-! ## Relocation -/

theorem Relocation.keepsToStatements_relocationRule (lottery : Relocation.Lottery) :
    (Relocation.relocationRule lottery).KeepsToStatements := by
  have hname : (Relocation.relocationRule lottery).Means "name" IsCovered := by
    refine Rule.Means.edit (Rule.Means.edit (Rule.Means.filter (Rule.Means.filter (Rule.Means.filter
      (Rule.means_bind (by decide) fun hu hm hn => ?_) _) _) _) _ _) _ _
    obtain ⟨d, hd, rfl⟩ := Option.map_eq_some_iff.mp hn
    obtain ⟨decl, hdecl, hd⟩ := Option.bind_eq_some_iff.mp hd
    obtain ⟨m₀, n, hm₀, -, rfl⟩ := hm.of_bind
    obtain ⟨decl', hdecl', hkind⟩ :=
      Condition.parent?_of_names_eachDeclarator (hm₀.names_root hu)
    obtain rfl := Option.some.inj (hdecl.symm.trans hdecl')
    exact Declarator.isCovered_name hkind (List.mem_of_find?_eq_some hd)
  have hdecl : (Relocation.relocationRule lottery).Means "decl" IsCovered :=
    (Condition.means_declaration "heap-relocate").bind (by decide)
  exact List.forall_mem_cons.mpr ⟨.inr ⟨"name", .inl rfl, hname⟩,
    List.forall_mem_singleton.mpr (.inr ⟨"decl", .inr rfl, hdecl⟩)⟩

theorem Relocation.keepsToStatements_freeRule (lottery : Relocation.Lottery) :
    (Relocation.freeRule lottery).KeepsToStatements :=
  Rule.keepsToStatements_before rfl (Rule.means_anyOf "heap-free" "root" (by decide))

/-! ## All passes -/

/-- **Rules without hooks keep to statements.** -/
theorem Rule.Listed.keepsToStatements (h : r.Listed)
    (hhooks : ∀ target, r ∉ (Hooks.targetSet target).rules) : r.KeepsToStatements := by
  have hslot {r : Rule} {makeText : EditText} (hedits : r.edits = [⟨.before "stmt", makeText⟩])
      (honce : ("root" :: r.finders.map Prod.fst).Nodup)
      (hfinder : ("stmt", Condition.slotAround) ∈ r.finders) : r.KeepsToStatements :=
    keepsToStatements_before hedits (means_slot honce hfinder)
  cases h with
  | thenBranch => exact Braces.keepsToStatements_thenRule
  | elseBranch => exact Braces.keepsToStatements_elseRule
  | loopBody => exact Braces.keepsToStatements_loopRule
  | labelled mem => exact Braces.keepsToStatements_of_mem mem
  | block => exact Tracing.keepsToStatements_blockRule
  | declaration => exact hslot rfl (by decide) List.mem_cons_self
  | site => exact Tracing.keepsToStatements_siteRule
  | entry => exact Tracing.keepsToStatements_entryRule
  | arrayIndex | pointerIndex | integer | divider => exact hslot rfl (by decide) List.mem_cons_self
  | memory mem => exact Observation.keepsToStatements_of_mem_memorySet mem
  | pointer mem => exact Observation.keepsToStatements_of_mem_pointerSet mem
  | init => exact Observation.keepsToStatements_initRule
  | hookedIndex => exact absurd (List.mem_singleton.mpr rfl) (hhooks .arrayIndex)
  | hookedPointer mem => exact absurd mem (hhooks .pointer)
  | hookedOperands => exact absurd (List.mem_singleton.mpr rfl) (hhooks .integer)
  | flags | definitions | helpers => exact keepsToStatements_start rfl
  | relocation lottery => exact Relocation.keepsToStatements_relocationRule lottery
  | free lottery => exact Relocation.keepsToStatements_freeRule lottery

/-- **Strictly inside an expression without statements** such a rule has nowhere to insert. -/
theorem Rule.KeepsToStatements.outside (h : r.KeepsToStatements) (hr : r.Insertive)
    (hu : u.root = .root t) (ht : t.isLaidOut = true) (hm : r.Offers u m) {e : EditTemplate}
    (he : e ∈ r.edits) {offset length : Nat} (hrange : Rule.anchorRange m e.anchor = .ok (offset, length))
    (ha : a.PlaceOf t) (hhookable : Hooks.IsHookable a)
    (hbare : ∀ s : Node, s.PlaceOf t → s.isWithin a = true → s.isStatement = false) :
    offset ≤ a.start ∨ a.stop ≤ offset := by
  have hwithin := (hr.of_offers hu hm).1
  have hspan := ha.start_le_stop ht
  rcases h e he with hstart | ⟨name, hanchor, hmeans⟩
  · rw [hstart] at hrange
    obtain ⟨rfl, -⟩ := Prod.mk.inj (Except.ok.inj hrange)
    exact .inl (Nat.zero_le _)
  · obtain ⟨n, hn, hoffset⟩ : ∃ n, m.node? name = some n ∧ (offset = n.start ∨ offset = n.stop) := by
      rcases hanchor with hanchor | hanchor
      all_goals
        rw [hanchor, Rule.anchorRange] at hrange
        obtain ⟨n, hn, hrange⟩ := bind_eq_ok_iff.mp hrange
        obtain ⟨rfl, -⟩ := Prod.mk.inj (Except.ok.inj hrange)
      · exact ⟨n, node?_of_node hn, .inl rfl⟩
      · exact ⟨n, node?_of_node hn, .inr rfl⟩
    have hplace := hwithin.node? hn
    have hnspan := hplace.start_le_stop ht
    rcases ha.within_or_apart ht hplace with habove | hinside | hapart | hapart
    · obtain ⟨hstart, hstop⟩ := ha.span_isWithin ht hplace habove
      rcases hoffset with rfl | rfl
      · exact .inl hstart
      · exact .inr hstop
    · rcases hmeans hu hm hn hplace ha hhookable hinside with rfl | ⟨s, hs, hsa, hstatement⟩
      · exact hoffset.imp Nat.le_of_eq fun h => Nat.le_of_eq h.symm
      · rw [hbare s hs hsa] at hstatement
        contradiction
    · rcases hoffset with rfl | rfl <;> exact .inl (by omega)
    · rcases hoffset with rfl | rfl <;> exact .inr (by omega)

end ProbeWeaver
