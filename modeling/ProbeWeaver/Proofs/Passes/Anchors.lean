import ProbeWeaver.Proofs.Passes.Rules
import ProbeWeaver.Proofs.Rule.Offers
import ProbeWeaver.Proofs.Tree.Slots

/-!
# Proofs/Passes/Anchors — what may stand right before a governed block

A statement put right before a governed block takes the place of the body, and the block runs
whatever the header says.  Rules that know their statement keep clear of governed blocks; a rule
that looks for the slot above gets one exactly when its construct hangs loose in it.

* `Rule.Listed.sparesBlocks` — every rule but that of block markers, which are comments.
* `Pipeline.isGoverned_anchor_iff` — the edits of a pipeline.
-/

namespace ProbeWeaver

open Node (HangsLoose)

variable {t : Tree} {u : SourceUnit} {m : Match} {r : Rule} {n b : Node} {name : String}

/-! ## Statements known from their patterns -/

namespace Pattern

/-- What fills the parts of a construct. -/
theorem eq_of_namesBelow_parts {c : Node} : ∀ {parts : List (Field × String)},
    Shape.NamesBelow name n
      (shapesEach (parts.map fun part => .field part.1 (any.capture part.2))) c → n = c
  | (f, x) :: parts, h => by
      rcases h with (⟨-, ⟨-, hn⟩ | ⟨c', -, hnone⟩⟩ | hnone) | h
      · exact hn
      · exact hnone.elim
      · exact hnone.elim
      · exact eq_of_namesBelow_parts h

/-- **A part of a construct** stands right below it. -/
theorem exists_parent?_of_names {k : Kind} {parts : List (Field × String)}
    (hroot : name ≠ "root")
    (h : Names name n ((construct k
      (parts.map fun part => .field part.1 (any.capture part.2))).capture "root")) :
    ∃ p, n.parent? = some p ∧ p.kind = k := by
  obtain ⟨p, ⟨hkind, ⟨hname, -⟩ | ⟨c, hc, hbelow⟩⟩ | hnone⟩ := h
  · exact absurd (List.mem_singleton.mp (List.contains_iff_mem.mp hname)) hroot
  · obtain rfl := eq_of_namesBelow_parts hbelow
    exact ⟨p, Node.parent?_of_mem_children hc, hkind.kind k rfl⟩
  · exact hnone.elim

/-- The construct of a kind that a rule is about. -/
theorem kind_of_names_each {k : Kind} (h : Names name n (Observation.each k)) : n.kind = k := by
  obtain ⟨p, ⟨hkind, ⟨-, rfl⟩ | ⟨c, -, hnone⟩⟩ | hnone⟩ := h
  · exact hkind.kind k rfl
  · exact hnone.elim
  · exact hnone.elim

end Pattern

/-- The first statement of a block is no governed block. -/
theorem not_isGoverned_of_statementAtStart? (hb : b.kind = .compoundStatement)
    (hn : b.statementAtStart? = some n) : n.isGoverned = false := by
  have hchild := (List.mem_filter.mp (List.mem_of_find?_eq_some hn)).1
  exact Node.not_isGoverned_of_parent? (Node.parent?_of_mem_children hchild) (by rw [hb]; decide)

/-! ## Rules that spare governed blocks -/

/-- The names that the rule inserts before. -/
def Rule.beforeNames (r : Rule) : List String :=
  r.edits.filterMap fun e =>
    match e.anchor with
    | .before name => some name
    | _ => none

theorem Rule.mem_beforeNames {e : EditTemplate} (he : e ∈ r.edits) (h : e.anchor = .before name) :
    name ∈ r.beforeNames :=
  List.mem_filterMap.mpr ⟨e, he, by rw [h]⟩

/-- **Bodies of functions are blocks**, as the grammar has it. -/
def SourceUnit.BodiesAreBlocks (u : SourceUnit) : Prop :=
  ∀ f ∈ u.root.namedChildren, f.kind = .functionDefinition →
    ∀ body ∈ f.field? .body, body.kind = .compoundStatement

instance (u : SourceUnit) : Decidable u.BodiesAreBlocks :=
  inferInstanceAs (Decidable (∀ f ∈ u.root.namedChildren, _))

/-- **The rule spares governed blocks**: what it inserts goes before the slot above its construct,
or before what is no governed block. -/
structure Rule.SparesBlocks (r : Rule) : Prop where
  once : ("root" :: r.finders.map Prod.fst).Nodup
  spares : ∀ {u : SourceUnit} {t : Tree} {m : Match} {name : String} {n : Node}, u.root = .root t →
    u.BodiesAreBlocks → r.Offers u m → (∀ f ∈ r.filters, f m u = true) → name ∈ r.beforeNames →
      m.node? name = some n → (name, Condition.slotAround) ∈ r.finders ∨ n.isGoverned = false

/-- **Before a governed block** such a rule inserts exactly when it goes by the slot above and the
construct hangs loose. -/
theorem Rule.SparesBlocks.isGoverned_iff (h : r.SparesBlocks) (hu : u.root = .root t)
    (hblocks : u.BodiesAreBlocks) (hm : r.Offers u m) (hfilters : ∀ f ∈ r.filters, f m u = true)
    (hname : name ∈ r.beforeNames) (hn : m.node? name = some n) :
    n.isGoverned = true ↔
      (name, Condition.slotAround) ∈ r.finders ∧ ∃ b, HangsLoose b m.root := by
  have hslot (hfinder : (name, Condition.slotAround) ∈ r.finders) :
      m.root.slotAround? = some n := by
    obtain ⟨m₀, hmain, hfound⟩ := hm.of_mem_finders hfinder h.once
    rw [← hmain, ← hn, hfound, Condition.slotAround]
  constructor
  · intro hgoverned
    rcases h.spares hu hblocks hm hfilters hname hn with hfinder | hnot
    · exact ⟨hfinder, n, Node.slotAround?_isGoverned_iff.mp ⟨hslot hfinder, hgoverned⟩⟩
    · rw [hnot] at hgoverned
      contradiction
  · rintro ⟨hfinder, b, hloose⟩
    obtain ⟨hb, hgoverned⟩ := Node.slotAround?_isGoverned_iff.mpr hloose
    obtain rfl := Option.some.inj ((hslot hfinder).symm.trans hb)
    exact hgoverned

namespace Rule

/-- A rule that goes by the slot above. -/
theorem sparesBlocks_slot (honce : ("root" :: r.finders.map Prod.fst).Nodup)
    (hnames : r.beforeNames = ["stmt"]) (hfinder : ("stmt", Condition.slotAround) ∈ r.finders) :
    r.SparesBlocks := by
  refine ⟨honce, fun _ _ _ _ hname _ => .inl ?_⟩
  rw [hnames] at hname
  rwa [List.mem_singleton.mp hname]

/-- A rule whose statements are no governed blocks. -/
theorem sparesBlocks_means (honce : ("root" :: r.finders.map Prod.fst).Nodup)
    (h : ∀ name ∈ r.beforeNames, r.Means name fun n => n.isGoverned = false) : r.SparesBlocks :=
  ⟨honce, fun hu _ hm _ hname hn => .inr (h _ hname hu hm hn)⟩

end Rule

/-! ## Braces -/

theorem Braces.sparesBlocks_wrapping (honce : ("root" :: r.finders.map Prod.fst).Nodup)
    (hedits : r.edits = []) : (Braces.wrapping r).SparesBlocks := by
  refine ⟨honce, fun _ _ _ hfilters hname hn => .inr ?_⟩
  have hunbraced := hfilters Braces.isUnbraced (by simp [Braces.wrapping, Rule.filter,
    Rule.writeBefore, Rule.writeAfter, Rule.edit])
  simp only [Rule.beforeNames, Braces.wrapping, Rule.filter, Rule.writeBefore, Rule.writeAfter,
    Rule.edit, hedits, List.nil_append, List.cons_append] at hname
  obtain rfl := List.mem_singleton.mp hname
  rw [Braces.isUnbraced, hn] at hunbraced
  exact Node.not_isGoverned_of_kind (bne_iff_ne.mp hunbraced)

theorem Braces.sparesBlocks_of_mem (hr : r ∈ Braces.labelSet.rules) : r.SparesBlocks := by
  simp only [Braces.labelSet, RuleSet.rules, List.mem_cons, List.not_mem_nil, or_false] at hr
  rcases hr with rfl | rfl
  all_goals exact Braces.sparesBlocks_wrapping (by decide) rfl

/-! ## Tracing -/

theorem Tracing.sparesBlocks_declarationRule : Tracing.declarationRule.SparesBlocks :=
  Rule.sparesBlocks_slot (by decide) rfl List.mem_cons_self

theorem Tracing.sparesBlocks_siteRule : Tracing.siteRule.SparesBlocks := by
  refine ⟨by decide, fun _ _ _ hfilters hname hn => .inr ?_⟩
  obtain rfl := List.mem_singleton.mp hname
  obtain rfl := Option.some.inj hn
  have hsite := hfilters Tracing.isSite (.tail _ (.tail _ (.head _)))
  exact (Bool.not_eq_true' _).mp (Bool.and_eq_true_iff.mp hsite).2

theorem Tracing.sparesBlocks_entryRule : Tracing.entryRule.SparesBlocks := by
  refine Rule.sparesBlocks_means (by decide) fun name hname => ?_
  obtain rfl := List.mem_singleton.mp hname
  refine Rule.Means.edit (Rule.Means.filter (Rule.Means.filter
    (Rule.means_bind (by decide) fun hu hm hn => ?_) _) _) _ _
  obtain ⟨body, hbody, hn⟩ := Option.bind_eq_some_iff.mp hn
  have hkind : body.kind = .compoundStatement := by
    obtain ⟨p, ⟨-, ⟨hname, -⟩ | ⟨c, -, hc⟩⟩ | hnone⟩ := hm.names hu hbody
    · exact absurd hname (by decide)
    · rcases hc with (⟨hkind, ⟨-, rfl⟩ | ⟨c', -, hnone⟩⟩ | hnone) | hnone
      · exact hkind.kind _ rfl
      all_goals exact hnone.elim
    · exact hnone.elim
  exact not_isGoverned_of_statementAtStart? hkind hn

/-! ## Observation -/

theorem Observation.sparesBlocks_of_mem_pointerSet (hr : r ∈ Observation.pointerSet.rules) :
    r.SparesBlocks := by
  simp only [Observation.pointerSet, RuleSet.rules, List.mem_cons, List.not_mem_nil, or_false] at hr
  rcases hr with rfl | rfl | rfl | rfl <;>
    exact Rule.sparesBlocks_slot (by decide) rfl List.mem_cons_self

/-- The first statement of `main` stands right in its body. -/
theorem Observation.sparesBlocks_startOfMain (honce : ("root" :: r.finders.map Prod.fst).Nodup)
    (hnames : r.beforeNames = ["stmt"])
    (hfinder : ("stmt", Condition.startOfMain) ∈ r.finders) : r.SparesBlocks := by
  refine ⟨honce, fun hu hblocks hm _ hname hn => .inr ?_⟩
  rw [hnames] at hname
  obtain rfl := List.mem_singleton.mp hname
  obtain ⟨m₀, -, hfound⟩ := hm.of_mem_finders hfinder honce
  rw [hn] at hfound
  obtain ⟨main, hmain, hfound⟩ := Option.bind_eq_some_iff.mp hfound.symm
  obtain ⟨body, hbody, hfound⟩ := Option.bind_eq_some_iff.mp hfound
  have hdefined := List.find?_some hmain
  have hkind := beq_iff_eq.mp (Bool.and_eq_true_iff.mp hdefined).1
  exact not_isGoverned_of_statementAtStart?
    (hblocks main (List.mem_of_find?_eq_some hmain) hkind body hbody) hfound

theorem Observation.sparesBlocks_of_mem_memorySet (hr : r ∈ Observation.memorySet.rules) :
    r.SparesBlocks := by
  simp only [Observation.memorySet, RuleSet.rules, List.mem_cons, List.not_mem_nil, or_false] at hr
  rcases hr with rfl | rfl | rfl | rfl | rfl
  · exact Rule.sparesBlocks_slot (by decide) rfl List.mem_cons_self
  · exact Rule.sparesBlocks_slot (by decide) rfl List.mem_cons_self
  · exact Rule.sparesBlocks_slot (by decide) rfl List.mem_cons_self
  · exact Rule.sparesBlocks_means (by decide) fun _ h => absurd h List.not_mem_nil
  · exact Observation.sparesBlocks_startOfMain (by decide) rfl List.mem_cons_self

theorem Observation.kind_of_guardingIf? {span : Span} : ∀ {outer : List Node},
    Observation.guardingIf? span outer = some n → n.kind = .ifStatement
  | a :: outer, h => by
      rw [Observation.guardingIf?] at h
      split at h
      · next hkind =>
        obtain ⟨condition, -, h⟩ := Option.bind_eq_some_iff.mp h
        split at h
        · obtain rfl := Option.some.inj h
          exact hkind
        · contradiction
      · split at h
        · contradiction
        · exact kind_of_guardingIf? h

theorem Observation.sparesBlocks_initRule : Observation.initRule.SparesBlocks := by
  refine Rule.sparesBlocks_means (by decide) fun name hname => ?_
  obtain rfl := List.mem_singleton.mp hname
  refine Rule.Means.edit (Rule.Means.filter (Rule.Means.filter
    (Rule.means_bind (by decide) fun _ _ hn => ?_) _) _) _ _
  refine Node.not_isGoverned_of_kind ?_
  rw [Observation.kind_of_guardingIf? hn]
  decide

/-! ## Hooks -/

/-- The parts of an expression are no governed blocks. -/
theorem Hooks.means_part (ruleName : String) (k : Kind) (parts : List (Field × String))
    (hroot : name ≠ "root")
    (hk : k ∉ [Kind.ifStatement, .elseClause, .forStatement, .whileStatement, .doStatement]) :
    (Rule.ofPattern ruleName ((Pattern.construct k
      (parts.map fun part => .field part.1 (Pattern.any.capture part.2))).capture "root")).Means
        name fun n => n.isGoverned = false :=
  Rule.means_ofPattern ruleName fun n hn => by
    obtain ⟨p, hp, hkind⟩ := Pattern.exists_parent?_of_names hroot hn
    exact Node.not_isGoverned_of_parent? hp (hkind ▸ hk)

theorem Hooks.sparesBlocks_arrayIndexRule : Hooks.arrayIndexRule.SparesBlocks := by
  refine Rule.sparesBlocks_means (by decide) fun name hname => ?_
  obtain rfl := List.mem_singleton.mp hname
  exact Hooks.means_part "mutate-array-index" .subscriptExpression
    [(.argument, "base"), (.index, "index")] (by decide) (by decide)

theorem Hooks.sparesBlocks_of_mem (hr : r ∈ Hooks.pointerSet.rules) : r.SparesBlocks := by
  have htarget (ruleName : String) (k : Kind)
      (hk : k ∉ [Kind.ifStatement, .elseClause, .forStatement, .whileStatement, .doStatement]) :
      ((Rule.ofPattern ruleName (Hooks.targetPattern k)).bind "stmt" Condition.slotAround).Means
        "target" fun n => n.isGoverned = false :=
    (Hooks.means_part ruleName k [(.argument, "target")] (by decide) hk).bind (by decide)
  simp only [Hooks.pointerSet, RuleSet.rules, List.mem_cons, List.not_mem_nil, or_false] at hr
  rcases hr with rfl | rfl
  all_goals
    refine Rule.sparesBlocks_means (by decide) fun name hname => ?_
    obtain rfl := List.mem_singleton.mp hname
  · exact htarget "mutate-pointer-deref" .pointerExpression (by decide)
  · exact htarget "mutate-pointer-member" .fieldExpression (by decide)

theorem Hooks.sparesBlocks_integerRule : Hooks.integerRule.SparesBlocks := by
  refine Rule.sparesBlocks_means (by decide) fun name hname => ?_
  have hroot : name ≠ "root" := by
    rintro rfl
    exact absurd hname (by decide)
  exact Hooks.means_part "mutate-integer" .binaryExpression [(.left, "left"), (.right, "right")]
    hroot (by decide)

/-! ## Relocation -/

theorem Relocation.sparesBlocks_relocationRule (lottery : Relocation.Lottery) :
    (Relocation.relocationRule lottery).SparesBlocks := by
  have honce : ("root" :: (Relocation.relocationRule lottery).finders.map Prod.fst).Nodup := by
    rw [show (Relocation.relocationRule lottery).finders.map Prod.fst = ["decl", "name"] from rfl]
    decide
  refine ⟨honce, fun hu _ hm _ hname hn => .inr ?_⟩
  obtain rfl := List.mem_singleton.mp hname
  have hfinder : ("name", Relocation.givenName) ∈ (Relocation.relocationRule lottery).finders :=
    .tail _ (.head _)
  obtain ⟨m₀, -, hfound⟩ := hm.of_mem_finders hfinder honce
  rw [hn] at hfound
  obtain ⟨d, hd, rfl⟩ := Option.map_eq_some_iff.mp hfound.symm
  obtain ⟨decl, hdecl, hd⟩ := Option.bind_eq_some_iff.mp hd
  have hkind := Declarator.kind_name (List.mem_of_find?_eq_some hd)
  refine Node.not_isGoverned_of_kind fun hblock => ?_
  rw [hblock] at hkind
  exact absurd hkind (by decide)

theorem Relocation.sparesBlocks_freeRule (lottery : Relocation.Lottery) :
    (Relocation.freeRule lottery).SparesBlocks := by
  have hreturn : (Rule.ofPattern "heap-free" (Condition.anyOf [.returnStatement])).Means "root"
      fun n => n.isGoverned = false :=
    Rule.means_ofPattern _ fun n hn => Node.not_isGoverned_of_kind (by
      rw [Pattern.kind_of_names_each hn]
      decide)
  refine Rule.sparesBlocks_means (List.pairwise_singleton _ _) fun name hname => ?_
  obtain rfl := List.mem_singleton.mp hname
  exact hreturn

/-! ## All passes -/

/-- **Every listed rule spares governed blocks**, but for the markers of blocks. -/
theorem Rule.Listed.sparesBlocks (h : r.Listed) (hmarker : r.name ≠ "log-braces") :
    r.SparesBlocks := by
  have hnothing {r : Rule} (hfinders : r.finders = []) (hnames : r.beforeNames = []) :
      r.SparesBlocks := by
    refine Rule.sparesBlocks_means ?_ fun name hname => ?_
    · rw [hfinders]
      exact List.pairwise_singleton _ _
    · rw [hnames] at hname
      exact absurd hname List.not_mem_nil
  cases h with
  | thenBranch => exact Braces.sparesBlocks_wrapping (by decide) rfl
  | elseBranch => exact Braces.sparesBlocks_wrapping (by decide) rfl
  | loopBody => exact Braces.sparesBlocks_wrapping (by decide) rfl
  | labelled mem => exact Braces.sparesBlocks_of_mem mem
  | block => exact absurd rfl hmarker
  | declaration => exact Tracing.sparesBlocks_declarationRule
  | site => exact Tracing.sparesBlocks_siteRule
  | entry => exact Tracing.sparesBlocks_entryRule
  | flags => exact hnothing rfl rfl
  | arrayIndex =>
    exact Rule.sparesBlocks_slot (by decide) rfl List.mem_cons_self
  | pointerIndex =>
    exact Rule.sparesBlocks_slot (by decide) rfl List.mem_cons_self
  | memory mem => exact Observation.sparesBlocks_of_mem_memorySet mem
  | pointer mem => exact Observation.sparesBlocks_of_mem_pointerSet mem
  | integer => exact Rule.sparesBlocks_slot (by decide) rfl List.mem_cons_self
  | divider => exact Rule.sparesBlocks_slot (by decide) rfl List.mem_cons_self
  | init => exact Observation.sparesBlocks_initRule
  | hookedIndex => exact Hooks.sparesBlocks_arrayIndexRule
  | hookedPointer mem => exact Hooks.sparesBlocks_of_mem mem
  | hookedOperands => exact Hooks.sparesBlocks_integerRule
  | definitions => exact hnothing rfl rfl
  | relocation lottery => exact Relocation.sparesBlocks_relocationRule lottery
  | free lottery => exact Relocation.sparesBlocks_freeRule lottery
  | helpers => exact hnothing rfl rfl

end ProbeWeaver
