import ProbeWeaver.Proofs.Passes.Draws
import ProbeWeaver.Proofs.Passes.Hygiene
import ProbeWeaver.Proofs.Run.Files

/-!
# Proofs/Run/Headings — when a file comes to the lines at its start

The lines at the start of a file are written by the one late rule of a pass (`PassKind.heading?`),
which matches each file once.  In a run with one pass of the kind each file comes to that rule once,
and when it does, the numbers that the lines depend on are all drawn.

* `exists_schedule_eq`, `exists_log_eq` — the schedule and the log of a run, cut where a file comes to
  its heading.
-/

namespace ProbeWeaver

variable {t : Tree} {u : SourceUnit} {r : Rule} {m : Match} {cx : EditContext} {edit : Edit}
  {draws : List Draw} {place n : Nat} {c : Category} {cs : List Category} {config : RunSettings}
  {kind : PassKind}

/-! ## What matches draw -/

theorem Rule.Makes.produces (h : r.Makes cx m edit draws) : r.Produces cx.unit edit.text draws := by
  obtain ⟨e, -, -, hproduces, -⟩ := h
  exact hproduces

/-- An edit of a rule that draws other numbers. -/
theorem Rule.Makes.not_mem_of_drawsOf (h : r.Makes cx m edit draws) (hr : r.DrawsOf cs)
    (hc : c ∉ cs) : ⟨c, n⟩ ∉ draws := by
  obtain ⟨e, he, -, -, numbering, numbering', hrun, hands⟩ := h
  exact (hr e he cx m).not_mem hrun hands hc

namespace RunState

variable {s s' : RunState} {ev : Event} {log : List Event}

/-- The file of a match, and how its edits were made. -/
theorem Step.exists_made (h : Step s ev s') : ∃ file, s.slots[ev.place]? = some (.parsed file) ∧
    (ev.visit.rule.editsOf ⟨file.unit, file.edits⟩ ev.visit.found).run s.numbering =
      .ok (ev.edits, s'.numbering) := by
  cases h with
  | @mk front back file visit edits accepted numbering numbering' made added =>
    refine ⟨file, ?_, made⟩
    rw [List.getElem?_append_right (Nat.le_refl _), Nat.sub_self]
    rfl

/-- **A match of a rule that draws other numbers** leaves the count of a category as it is. -/
theorem Step.count_eq (h : Step s ev s') (hcall : IsListedCall s.units ev.call u t)
    (hother : ev.visit.rule.DrawsOf cs) (hc : c ∉ cs) :
    s'.numbering.count c = s.numbering.count c := by
  obtain ⟨accepted, dss, hands, hedits⟩ := h.exists_draws hcall
  refine hands.count_eq fun x hx hxc => ?_
  obtain ⟨ds, hds, hx⟩ := List.mem_flatten.mp hx
  obtain ⟨edit, -, hmakes⟩ := exists_of_forall₂_of_mem hedits hds
  exact Rule.Makes.not_mem_of_drawsOf hmakes hother (hxc ▸ hc) hx

theorem Steps.count_eq (h : Steps s log s')
    (hcalls : ∀ ev ∈ log, ∃ u t, IsListedCall s.units ev.call u t)
    (hother : ∀ ev ∈ log, ev.visit.rule.DrawsOf cs) (hc : c ∉ cs) :
    s'.numbering.count c = s.numbering.count c := by
  induction h with
  | nil => rfl
  | @cons s s' s'' ev log step rest ih =>
    obtain ⟨u, t, hcall⟩ := hcalls ev List.mem_cons_self
    rw [ih (fun ev' hev' => step.units_eq ▸ hcalls ev' (List.mem_cons_of_mem ev hev'))
      fun ev' hev' => hother ev' (List.mem_cons_of_mem ev hev')]
    exact step.count_eq hcall (hother ev List.mem_cons_self) hc

/-- **How an edit of a run came to be**: a match made it with draws below the counts that the run
comes to. -/
theorem Steps.exists_makes (h : Steps s log s')
    (hcalls : ∀ ev ∈ log, ∃ u t, IsListedCall s.units ev.call u t) {ev : Event} (hev : ev ∈ log)
    (hedit : edit ∈ ev.edits) : ∃ u t accepted draws, IsListedCall s.units ev.call u t ∧
      ev.visit.rule.Makes ⟨u, accepted⟩ ev.visit.found edit draws ∧
        ∀ x ∈ draws, x.number < s'.numbering.count x.category := by
  obtain ⟨dss, hands, hmade⟩ := h.exists_draws hcalls
  have hmem : (ev, edit) ∈ log.flatMap Event.made :=
    List.mem_flatMap.mpr ⟨ev, hev, List.mem_map_of_mem hedit⟩
  obtain ⟨draws, hdraws, u, t, accepted, hcall, hmakes⟩ := exists_of_forall₂_of_mem hmade.flip hmem
  exact ⟨u, t, accepted, draws, hcall, hmakes, fun x hx =>
    hands.number_lt (List.mem_flatten.mpr ⟨draws, hdraws, hx⟩)⟩

/-- **A run cut at an event**: the file there holds what came before when the match is made, and in
the end that, the edits of the match, and what came later. -/
theorem Steps.exists_cut {files : List SourceFile} {pre post : List Event} {file : ParsedFile}
    (h : Steps ⟨files.map (·.slot), {}⟩ (pre ++ ev :: post) s')
    (hcalls : ∀ e ∈ pre ++ ev :: post, ∃ u t, IsListedCall (files.map (·.unit?)) e.call u t)
    (hslot : s'.slots[ev.place]? = some (.parsed file)) :
    ∃ s₁ s₂ accepted, Steps ⟨files.map (·.slot), {}⟩ pre s₁ ∧ Steps s₂ post s' ∧
      s₂.units = files.map (·.unit?) ∧ accepted.Gathers (editsFor ev.place pre) ∧
        (ev.visit.rule.editsOf ⟨file.unit, accepted⟩ ev.visit.found).run s₁.numbering =
          .ok (ev.edits, s₂.numbering) ∧
        file.edits.Gathers (editsFor ev.place pre ++ ev.edits ++ editsFor ev.place post) := by
  obtain ⟨hunit, hfile⟩ := h.holds_of_start hcalls hslot
  obtain ⟨s₁, hpre, hrest⟩ := h.exists_of_append
  cases hrest with
  | @cons _ s₂ _ _ _ step hpost =>
    obtain ⟨file₁, hslot₁, hmade⟩ := step.exists_made
    obtain ⟨hunit₁, hfile₁⟩ := hpre.holds_of_start
      (fun e he => hcalls e (List.mem_append_left _ he)) hslot₁
    have hsame : file₁.unit = file.unit :=
      Option.some.inj (Option.some.inj (hunit₁.symm.trans hunit))
    have hedits : editsFor ev.place (pre ++ ev :: post) =
        editsFor ev.place pre ++ ev.edits ++ editsFor ev.place post := by
      rw [List.append_cons, editsFor_append, editsFor_append, editsFor_singleton]
    exact ⟨s₁, s₂, file₁.edits, hpre, hpost,
      step.units_eq.trans (hpre.units_eq.trans (units_start files)), hfile₁.gathers, hsame ▸ hmade,
      hedits ▸ hfile.gathers⟩

end RunState

/-! ## Rules of whole files -/

/-- The pattern of whole files finds files only. -/
theorem Condition.waysAt_wholeFile (n : Node) : Condition.wholeFile.waysAt n =
    if n.kind = .sourceUnit then [⟨[("root", n)], n, n⟩] else [] := by
  have hshapes : Condition.wholeFile.shapes = [.node (.kind .sourceUnit) none ["root"] []] := rfl
  rw [Pattern.waysAt, hshapes, List.flatMap_cons, List.flatMap_nil, List.append_nil]
  show Way.settled ((Shape.node (.kind .sourceUnit) none ["root"] []).ways n) = _
  rw [Shape.ways]
  by_cases hkind : n.kind = .sourceUnit
  · rw [if_pos hkind, if_pos (by simp [Shape.accepts, NodeTest.accepts, hkind]), waysBelow]
    have hself (w : Way) : Way.settled [w] = [w] := by
      rw [Way.settled]
      simp [Way.distinct]
    exact hself _
  · rw [if_neg hkind, if_neg (by simp [Shape.accepts, NodeTest.accepts, hkind])]
    rfl

/-- **A rule of whole files** has one match in a file. -/
theorem Rule.matchesIn_wholeFile (ruleName : String) (hfile : u.IsOneFile) (hu : u.root = .root t)
    (hkind : t.kind = .sourceUnit) :
    (Rule.ofPattern ruleName Condition.wholeFile).matchesIn u =
      .ok [⟨ruleName, u.root, [("root", u.root)]⟩] := by
  have hways : (u.root.walk.flatMap fun m => Condition.wholeFile.waysAt m) =
      [⟨[("root", u.root)], u.root, u.root⟩] := by
    have hwalk : u.root.walk = u.root :: Node.walkTrees u.root 0 t.children := by
      rw [Node.walk, show u.root.tree = t by rw [hu]; rfl]
      cases t with
      | node k f s d cs => rw [Node.walkTree]; rfl
    have hbelow : (Node.walkTrees u.root 0 t.children).flatMap
        (fun m => Condition.wholeFile.waysAt m) = [] := by
      refine List.flatMap_eq_nil_iff.mpr fun m hm => ?_
      rw [Condition.waysAt_wholeFile, if_neg]
      intro hm'
      refine Node.path_ne_nil_of_mem_walkTrees hm (hfile m ?_ hm')
      rw [hwalk]
      exact List.mem_cons_of_mem _ hm
    have hroot : u.root.kind = .sourceUnit := by rw [hu]; exact hkind
    rw [hwalk, List.flatMap_cons, hbelow, Condition.waysAt_wholeFile, if_pos hroot]
    rfl
  have hfindings : (Query.ofPattern Condition.wholeFile).findings u.root =
      [⟨u.root, [("root", u.root)]⟩] := by
    have hpatterns : (fun m => (Query.ofPattern Condition.wholeFile).patterns.flatMap (·.waysAt m)) =
        fun m => Condition.wholeFile.waysAt m := by
      funext m
      exact List.append_nil _
    rw [Query.findings, hpatterns, hways, List.mergeSort_singleton]
    rfl
  have hquery : (Rule.ofPattern ruleName Condition.wholeFile).query =
      .ok (Query.ofPattern Condition.wholeFile) := rfl
  rw [Rule.matchesIn, hquery]
  dsimp only
  rw [hfindings]
  rfl

/-- **The rule that writes the lines** of a pass at the start of a file. -/
def PassKind.heading? : PassKind → Option Rule
  | .braces => none
  | .instrument => some Tracing.flagRule
  | .mutate => some Hooks.definitionRule
  | .stackToHeap => some Relocation.helperRule

theorem PassKind.matchesIn_heading (hr : kind.heading? = some r) (hfile : u.IsOneFile)
    (hu : u.root = .root t) (ht : t.kind = .sourceUnit) :
    r.phase = .late ∧ ∃ m, r.matchesIn u = .ok [m] := by
  cases kind <;> simp only [heading?, Option.some.injEq, reduceCtorEq] at hr
  all_goals
    subst hr
    exact ⟨rfl, _, Rule.matchesIn_wholeFile _ hfile hu ht⟩

/-- The rule sets of the instrument pass that go through the file. -/
def Tracing.traversalSets (mode : Option ProbeMode) : List RuleSet :=
  [.single blockRule, .single declarationRule, .single siteRule] ++ modeSets mode ++
    [.single entryRule]

theorem Tracing.phase_of_mem_traversalSets {mode : Option ProbeMode}
    (hr : r ∈ (traversalSets mode).flatMap (·.rules)) : r.phase = .traversal := by
  cases mode with
  | none => revert r; decide
  | some mode => cases mode <;> (revert r; decide)

theorem Hooks.phase_of_mem_targetSet {target : HookTarget} (hr : r ∈ (targetSet target).rules) :
    r.phase = .traversal := by
  cases target <;> (revert r; decide)

/-- **The heading comes last** among the rules of its pass, the others go through the file. -/
theorem Pass.exists_sets_ofKind (config : RunSettings) (hr : kind.heading? = some r) :
    ∃ sets, (Pass.ofKind config kind).sets = sets ++ [.single r] ∧
      ∀ r' ∈ sets.flatMap (·.rules), r'.phase = .traversal := by
  cases kind <;> simp only [PassKind.heading?, Option.some.injEq, reduceCtorEq] at hr
  all_goals subst hr
  case instrument =>
    refine ⟨Tracing.traversalSets config.mode, ?_, fun _ => Tracing.phase_of_mem_traversalSets⟩
    rw [Tracing.traversalSets, List.append_assoc _ _ [RuleSet.single Tracing.flagRule]]
    rfl
  case mutate =>
    refine ⟨_, rfl, fun r' hr' => ?_⟩
    obtain ⟨s, hs, hr'⟩ := List.mem_flatMap.mp hr'
    obtain ⟨target, -, rfl⟩ := List.mem_map.mp hs
    exact Hooks.phase_of_mem_targetSet hr'
  case stackToHeap =>
    refine ⟨_, rfl, fun r' hr' => ?_⟩
    obtain ⟨s, hs, hr'⟩ := List.mem_flatMap.mp hr'
    rcases List.mem_append.mp hs with hs | hs
    · obtain rfl := List.mem_singleton.mp hs
      rw [RuleSet.eq_of_mem_single hr']
      rfl
    · split at hs
      · obtain rfl := List.mem_singleton.mp hs
        rw [RuleSet.eq_of_mem_single hr']
        rfl
      · exact absurd hs List.not_mem_nil

/-- The rules of a pass go through the file, but for the one that writes its heading. -/
theorem Pass.phase_or_heading (hr : r ∈ (Pass.ofKind config kind).rules) :
    r.phase = .traversal ∨ kind.heading? = some r := by
  cases hheading : kind.heading? with
  | none =>
    obtain rfl : kind = .braces := by cases kind <;> first | rfl | exact nomatch hheading
    have hall : ∀ r ∈ Braces.pass.rules, r.phase = .traversal := by decide
    exact .inl (hall r hr)
  | some heading =>
    obtain ⟨sets, hsets, hphase⟩ := Pass.exists_sets_ofKind config hheading
    rw [Pass.rules, hsets, List.flatMap_append] at hr
    rcases List.mem_append.mp hr with hr | hr
    · exact .inl (hphase r hr)
    · obtain ⟨s, hs, hr⟩ := List.mem_flatMap.mp hr
      obtain rfl := List.mem_singleton.mp hs
      rw [RuleSet.eq_of_mem_single hr]
      exact .inr rfl

/-- **The late part of a pass** is one visit, for the heading of the file. -/
theorem Pass.exists_visits_late (config : RunSettings) (kind : PassKind)
    (hr : kind.heading? = some r) (hfile : u.IsOneFile) (hu : u.root = .root t)
    (ht : t.kind = .sourceUnit) :
    ∃ index m, (Pass.ofKind config kind).visits u .late = .ok [⟨r, index, m⟩] := by
  have hpass : (Pass.ofKind config kind).Insertive := Pass.insertive_ofKind config kind
  obtain ⟨sets, hsets, hphase⟩ := Pass.exists_sets_ofKind config hr
  obtain ⟨ws, hws⟩ : ∃ ws, Pass.visitsFrom u .late (Pass.ofKind config kind).sets 0 = .ok ws :=
    Pass.exists_visitsFrom
      (fun r hr => (hpass.of_mem_rules hr).exists_matchesIn hu |>.imp fun _ h => h.1) 0
  rw [hsets] at hws
  obtain ⟨front, base, rest, hfront, hrest, rfl⟩ := Pass.exists_of_visitsFrom_append hws
  have hnone : front = [] := List.eq_nil_iff_forall_not_mem.mpr fun v hv => by
    have htraversal := hphase v.rule (Pass.mem_visitsFrom hfront hv).1
    rw [Pass.phase_of_mem_visitsFrom hfront hv] at htraversal
    contradiction
  obtain ⟨hlate, m, hmatches⟩ := PassKind.matchesIn_heading hr hfile hu ht
  have hvisits : RuleSet.visitsOf u .late r base = .ok [⟨r, base, m⟩] := by
    rw [RuleSet.visitsOf, if_pos hlate, hmatches]
    rfl
  obtain rfl := Except.ok.inj (hrest.symm.trans (bind_eq_ok_iff.mpr ⟨_, hvisits, rfl⟩))
  rw [hnone, ← hsets] at hws
  refine ⟨base, m, bind_eq_ok_iff.mpr ⟨_, hws, ?_⟩⟩
  rw [List.nil_append, List.append_nil]
  cases (Pass.ofKind config kind).order
  all_goals
    show Except.ok (List.mergeSort [_] _) = _
    rw [List.mergeSort_singleton]

/-! ## The schedule -/

/-- **The calls for one file** stand together in each part of a pass. -/
theorem callsFrom_split {pass : Pass} {phase : Phase} : ∀ {us : List (Option SourceUnit)}
    {i place : Nat} {unit? : Option SourceUnit}, us[place]? = some unit? →
      ∃ front back, callsFrom pass phase i us =
        front ++ ((pass.visitsIn phase unit?).map (i + place, ·) ++ back) ∧
          ∀ call ∈ front ++ back, call.1 ≠ i + place
  | x :: us, i, 0, _, h => by
      obtain rfl := Option.some.inj h
      refine ⟨[], callsFrom pass phase (i + 1) us, rfl, fun call hcall hplace => ?_⟩
      obtain ⟨u, vs, -, hle, -⟩ :=
        mem_callsFrom (show (call.1, call.2) ∈ callsFrom pass phase (i + 1) us from hcall)
      omega
  | x :: us, i, k + 1, _, h => by
      rw [List.getElem?_cons_succ] at h
      obtain ⟨front, back, hcalls, hplaces⟩ := callsFrom_split (i := i + 1) h
      rw [show i + 1 + k = i + (k + 1) by omega] at hcalls hplaces
      refine ⟨(pass.visitsIn phase x).map (i, ·) ++ front, back, ?_, fun call hcall => ?_⟩
      · rw [callsFrom, hcalls, List.append_assoc]
      · rw [List.append_assoc] at hcall
        rcases List.mem_append.mp hcall with hcall | hcall
        · obtain ⟨v, -, rfl⟩ := List.mem_map.mp hcall
          show i ≠ i + (k + 1)
          omega
        · exact hplaces call hcall

/-- A pass of another kind. -/
def Pass.IsOther (kind : PassKind) (p : Pass) : Prop :=
  ∃ config other, other ≠ kind ∧ p = Pass.ofKind config other

/-- **The passes around a pass** that is listed once. -/
theorem Pipeline.exists_passes_eq (hkind : kind ≠ .braces) (honce : config.passes.count kind = 1)
    (validateOutput dryRun : Bool) :
    ∃ front back, (build config.selectedPasses validateOutput dryRun).passes =
      front ++ Pass.ofKind config kind :: back ∧ ∀ p ∈ front ++ back, p.IsOther kind := by
  obtain ⟨before, after, hpasses⟩ := List.append_of_mem
    (List.count_pos_iff.mp (Nat.lt_of_lt_of_eq Nat.one_pos honce.symm))
  have hother : ∀ other ∈ before ++ after, other ≠ kind := by
    rw [hpasses, List.count_append, List.count_cons_self] at honce
    have hzero : (before ++ after).count kind = 0 := by
      rw [List.count_append]
      omega
    exact fun other hmem heq => List.count_eq_zero.mp hzero (heq ▸ hmem)
  have hselected : config.selectedPasses = before.map (Pass.ofKind config) ++
      Pass.ofKind config kind :: after.map (Pass.ofKind config) := by
    rw [RunSettings.selectedPasses, hpasses, List.map_append, List.map_cons]
  have hothers : ∀ p ∈ before.map (Pass.ofKind config) ++ after.map (Pass.ofKind config),
      p.IsOther kind := by
    intro p hp
    rw [← List.map_append] at hp
    obtain ⟨other, hmem, rfl⟩ := List.mem_map.mp hp
    exact ⟨config, other, hother other hmem, rfl⟩
  rw [build]
  dsimp only
  split
  · refine ⟨Braces.pass :: before.map (Pass.ofKind config), after.map (Pass.ofKind config),
      by rw [hselected]; rfl, fun p hp => ?_⟩
    rcases List.mem_cons.mp hp with rfl | hp
    · exact ⟨config, .braces, hkind.symm, rfl⟩
    · exact hothers p hp
  · exact ⟨_, _, hselected, hothers⟩

/-- The rule goes through the file, or writes another heading. -/
def Rule.HeadsNot (name : String) (r : Rule) : Prop := r.phase = .traversal ∨ r.name ≠ name

/-- The categories that a pass leaves to others. -/
def PassKind.foreign (kind : PassKind) : List Category :=
  Category.all.filter (· ∉ kind.categories)

/-- **The rules of other passes** write other headings and draw other numbers. -/
theorem Pass.IsOther.of_mem_rules {p : Pass} {heading : Rule} (h : p.IsOther kind)
    (hr : r ∈ p.rules) (hheading : kind.heading? = some heading) :
    r.HeadsNot heading.name ∧ r.DrawsOf kind.foreign := by
  obtain ⟨config, other, hne, rfl⟩ := h
  refine ⟨(Pass.phase_or_heading hr).imp id fun hother => ?_, (Pass.drawsOf_ofKind hr).mono ?_⟩
  · cases kind <;> simp only [PassKind.heading?, Option.some.injEq, reduceCtorEq] at hheading
    all_goals
      subst hheading
      cases other <;> simp only [PassKind.heading?, Option.some.injEq, reduceCtorEq] at hother
      all_goals
        subst hother
        first
        | decide
        | exact absurd rfl hne
  · cases kind <;> cases other <;> first | decide | exact absurd rfl hne

theorem schedule_append (passes more : List Pass) (units : List (Option SourceUnit)) :
    schedule (passes ++ more) units = schedule passes units ++ schedule more units :=
  List.flatMap_append

/-- The rule of a call is a rule of the pass, for its phase. -/
theorem mem_rules_of_mem_callsFrom {p : Pass} {phase : Phase} {i : Nat}
    {units : List (Option SourceUnit)} {call : Nat × Visit} (h : call ∈ callsFrom p phase i units) :
    call.2.rule ∈ p.rules ∧ call.2.rule.phase = phase := by
  obtain ⟨v, vs, -, -, hvs, hv⟩ :=
    mem_callsFrom (show (call.1, call.2) ∈ callsFrom p phase i units from h)
  exact ⟨(Pass.mem_visits hvs hv).1, Pass.phase_of_mem_visits hvs hv⟩

/-- Late calls draw no numbers. -/
theorem drawsOf_of_mem_callsFrom_late {units : List (Option SourceUnit)} {i : Nat}
    {call : Nat × Visit} (h : call ∈ callsFrom (Pass.ofKind config kind) .late i units) :
    call.2.rule.DrawsOf cs := by
  obtain ⟨hrule, hphase⟩ := mem_rules_of_mem_callsFrom h
  have hlisted : call.2.rule.Listed := Pass.listed_of_mem hrule
  exact (hlisted.heads hphase).drawsOf

/-- The calls of other passes write other headings and draw other numbers. -/
theorem Pass.IsOther.of_mem_schedule {passes : List Pass} (h : ∀ p ∈ passes, p.IsOther kind)
    (hr : kind.heading? = some r) (units : List (Option SourceUnit)) :
    ∀ call ∈ schedule passes units,
      call.2.rule.HeadsNot r.name ∧ call.2.rule.DrawsOf kind.foreign := by
  intro call hcall
  obtain ⟨pass, hpass, phase, v, vs, -, hvs, hv⟩ :=
    mem_schedule (show (call.1, call.2) ∈ schedule passes units from hcall)
  exact (h pass hpass).of_mem_rules (Pass.mem_visits hvs hv).1 hr

/-- **Each file comes once to its heading**: before and after that, its rules write others, and
after that, no number of the pass is drawn in any file. -/
theorem exists_schedule_eq (kind : PassKind) (hr : kind.heading? = some r)
    (honce : config.passes.count kind = 1) (validateOutput dryRun : Bool)
    {units : List (Option SourceUnit)}
    (hunit : units[place]? = some (some u)) (hfile : u.IsOneFile) (hu : u.root = .root t)
    (ht : t.kind = .sourceUnit) :
    ∃ pre post index m, schedule (Pipeline.build config.selectedPasses validateOutput dryRun).passes
        units = pre ++ (place, ⟨r, index, m⟩) :: post ∧
      (∀ call ∈ pre ++ post, call.1 = place → call.2.rule.HeadsNot r.name) ∧
        ∀ call ∈ post, call.2.rule.DrawsOf kind.foreign := by
  have hkind : kind ≠ .braces := by
    rintro rfl
    exact nomatch hr
  obtain ⟨front, back, hpasses, hother⟩ :=
    Pipeline.exists_passes_eq hkind honce validateOutput dryRun
  obtain ⟨index, m, hvisits⟩ := Pass.exists_visits_late config kind hr hfile hu ht
  obtain ⟨lateFront, lateBack, hlate, hplaces⟩ :=
    @callsFrom_split (Pass.ofKind config kind) .late units 0 place _ hunit
  rw [Nat.zero_add, Pass.visitsIn, hvisits] at hlate
  rw [Nat.zero_add] at hplaces
  have hfront := Pass.IsOther.of_mem_schedule (fun p hp => hother p (List.mem_append_left _ hp)) hr
    units
  have hback := Pass.IsOther.of_mem_schedule (fun p hp => hother p (List.mem_append_right _ hp)) hr
    units
  have hdrawn : ∀ call ∈ lateBack, call.2.rule.DrawsOf kind.foreign := fun call hcall =>
    drawsOf_of_mem_callsFrom_late
      (hlate ▸ List.mem_append_right _ (List.mem_append_right _ hcall))
  refine ⟨schedule front units ++ (callsFrom (Pass.ofKind config kind) .traversal 0 units ++
    lateFront), lateBack ++ schedule back units, index, m, ?_, ?_, ?_⟩
  · rw [hpasses, schedule_append, List.append_assoc]
    congr 1
    rw [schedule, List.flatMap_cons, hlate]
    simp only [List.append_assoc]
    rfl
  · intro call hcall hplace
    rcases List.mem_append.mp hcall with hcall | hcall
    · rcases List.mem_append.mp hcall with hcall | hcall
      · exact (hfront call hcall).1
      · rcases List.mem_append.mp hcall with hcall | hcall
        · exact .inl (mem_rules_of_mem_callsFrom hcall).2
        · exact absurd hplace (hplaces call (List.mem_append_left _ hcall))
    · rcases List.mem_append.mp hcall with hcall | hcall
      · exact absurd hplace (hplaces call (List.mem_append_right _ hcall))
      · exact (hback call hcall).1
  · intro call hcall
    rcases List.mem_append.mp hcall with hcall | hcall
    · exact hdrawn call hcall
    · exact (hback call hcall).2

/-- **The log of a run**, cut where a file comes to its heading. -/
theorem exists_log_eq (kind : PassKind) (hr : kind.heading? = some r)
    (honce : config.passes.count kind = 1) {validateOutput dryRun : Bool} {files : List SourceFile}
    {log : List Event} (hlog : log.map Event.call = schedule
      (Pipeline.build config.selectedPasses validateOutput dryRun).passes (files.map (·.unit?)))
    (hunit : (files.map (·.unit?))[place]? = some (some u)) (hfile : u.IsOneFile)
    (hkind : u.root.kind = .sourceUnit) :
    ∃ pre ev post index m, log = pre ++ ev :: post ∧ ev.call = (place, ⟨r, index, m⟩) ∧
      (∀ e ∈ pre ++ post, e.place = place → e.visit.rule.HeadsNot r.name) ∧
        ∀ e ∈ post, e.visit.rule.DrawsOf kind.foreign := by
  obtain ⟨t, hroot⟩ := isRooted_units files u (List.mem_of_getElem? hunit)
  obtain ⟨pre, post, index, m, hschedule, hlines, hspares⟩ := exists_schedule_eq kind hr honce
    validateOutput dryRun hunit hfile hroot (by rwa [hroot] at hkind)
  rw [hschedule] at hlog
  obtain ⟨front, rest, rfl, rfl, hrest⟩ := List.map_eq_append_iff.mp hlog
  obtain ⟨ev, back, rfl, hev, rfl⟩ := List.map_eq_cons_iff.mp hrest
  rw [← List.map_append] at hlines
  exact ⟨front, ev, back, index, m, rfl, hev, fun e he => hlines e.call (List.mem_map_of_mem he),
    fun e he => hspares e.call (List.mem_map_of_mem he)⟩

end ProbeWeaver
