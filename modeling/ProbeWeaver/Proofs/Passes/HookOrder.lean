import ProbeWeaver.Proofs.Passes.HookTargets
import ProbeWeaver.Proofs.Passes.Wraps
import ProbeWeaver.Proofs.Rule.Order

/-!
# Proofs/Passes/HookOrder — the hooks of a file come inner ones first

Each rule of hooks puts hooks around parts of its construct (`HookTarget.parts`).  The mutate pass
visits constructs by their ends, so a hook comes before the hooks around it, provided that no hooked
part spans its whole construct (`Hooks.nested_of_visits`).
-/

namespace ProbeWeaver

open Node Hooks

variable {t : Tree} {u : SourceUnit} {r : Rule} {m : Match} {n : Node} {target target' : HookTarget}
  {targets : List HookTarget} {h : Hook} {vs : List Visit}

/-! ## What the rules hook -/

/-- A part of a construct that gets a hook: its name in the rule, its field, and the hook. -/
structure Hooks.Part where
  name : String
  field : Field
  hook : Hook

namespace HookTarget

/-- **The parts that a target hooks.** -/
def parts : HookTarget → List Part
  | .arrayIndex => [⟨"index", .index, arrayHook⟩]
  | .pointer => [⟨"target", .argument, pointerHook⟩]
  | .integer => [⟨"left", .left, leftHook⟩, ⟨"right", .right, rightHook⟩]

/-- The constructs that they are parts of. -/
def kinds : HookTarget → List Kind
  | .arrayIndex => [.subscriptExpression]
  | .pointer => [.pointerExpression, .fieldExpression]
  | .integer => [.binaryExpression]

theorem parts_ne_nil (target : HookTarget) : target.parts ≠ [] := by
  cases target <;> exact List.cons_ne_nil _ _

/-- Targets are told apart by their constructs. -/
theorem eq_of_mem_kinds {k : Kind} (hk : k ∈ target.kinds) (hk' : k ∈ target'.kinds) :
    target = target' := by
  have hall : ∀ target target' : HookTarget, ∀ k ∈ target.kinds, k ∈ target'.kinds →
      target = target' := by
    intro target target'
    cases target <;> cases target' <;> decide
  exact hall target target' k hk hk'

end HookTarget

namespace Hooks

/-- The edits that put hooks around parts. -/
def templates (parts : List Part) : List EditTemplate :=
  parts.flatMap fun part => [⟨.before part.name, .literal opener⟩, ⟨.after part.name, closer part.hook⟩]

/-- The node is the part of its construct. -/
structure Part.Fills (part : Part) (target : HookTarget) (main n : Node) : Prop where
  kind : main.kind ∈ target.kinds
  mem : n ∈ main.children
  field : n.tree.field = some part.field

theorem edits_of_mem (hr : r ∈ (targetSet target).rules) : r.edits = templates target.parts := by
  cases target with
  | arrayIndex => rw [RuleSet.eq_of_mem_single hr]; rfl
  | pointer =>
    simp only [targetSet, pointerSet, RuleSet.rules, List.mem_cons, List.not_mem_nil, or_false] at hr
    rcases hr with rfl | rfl <;> rfl
  | integer => rw [RuleSet.eq_of_mem_single hr]; rfl

theorem binds_of_mem (hr : r ∈ (targetSet target).rules) {part : Part} (hp : part ∈ target.parts) :
    r.binds part.name = true := by
  cases target with
  | arrayIndex =>
    rw [RuleSet.eq_of_mem_single hr, List.mem_singleton.mp hp]
    decide
  | pointer =>
    simp only [targetSet, pointerSet, RuleSet.rules, List.mem_cons, List.not_mem_nil, or_false] at hr
    rw [List.mem_singleton.mp hp]
    rcases hr with rfl | rfl <;> decide
  | integer =>
    simp only [HookTarget.parts, List.mem_cons, List.not_mem_nil, or_false] at hp
    rw [RuleSet.eq_of_mem_single hr]
    rcases hp with rfl | rfl <;> decide

theorem fills_of_isPart {k : Kind} {fields : List Field} {main : Node} {part : Part}
    (h : Rule.IsPart k fields main n) (hk : k ∈ target.kinds) (hfields : fields = [part.field]) :
    part.Fills target main n := by
  obtain ⟨f, hf, hfield⟩ := h.field
  rw [hfields] at hf
  exact ⟨h.kind ▸ hk, h.mem, List.mem_singleton.mp hf ▸ hfield⟩

/-- **What a rule of hooks calls a part** is that part of its main node. -/
theorem relates_of_mem (hr : r ∈ (targetSet target).rules) {part : Part} (hp : part ∈ target.parts) :
    r.Relates part.name (part.Fills target) := by
  cases target with
  | arrayIndex =>
    rw [RuleSet.eq_of_mem_single hr]
    obtain rfl := List.mem_singleton.mp hp
    exact relates_index.mono fun _ _ h => fills_of_isPart h (.head _) rfl
  | pointer =>
    simp only [targetSet, pointerSet, RuleSet.rules, List.mem_cons, List.not_mem_nil, or_false] at hr
    obtain rfl := List.mem_singleton.mp hp
    rcases hr with rfl | rfl
    · exact Rule.Relates.mono (relates_target "mutate-pointer-deref") fun _ _ h =>
        fills_of_isPart h (.head _) rfl
    · exact Rule.Relates.mono (relates_target "mutate-pointer-member") fun _ _ h =>
        fills_of_isPart h (.tail _ (.head _)) rfl
  | integer =>
    simp only [HookTarget.parts, List.mem_cons, List.not_mem_nil, or_false] at hp
    rw [RuleSet.eq_of_mem_single hr]
    rcases hp with rfl | rfl
    · exact (relates_operand (.inl rfl)).mono fun _ _ h => fills_of_isPart h (.head _) rfl
    · exact (relates_operand (.inr rfl)).mono fun _ _ h => fills_of_isPart h (.head _) rfl

/-! ## The hooks of one match -/

/-- The draw of a hook's number. -/
def Wrap.draw (w : Wrap) : Draw := ⟨w.hook.category, w.number⟩

/-- **The hook is around the part** of the match. -/
structure Wrap.IsOf (m : Match) (part : Part) (w : Wrap) : Prop where
  place : m.node? part.name = some w.place
  hook : w.hook = part.hook

/-- **The edits around parts** are those of hooks, one for each part. -/
theorem exists_wraps_of_templates (cx : EditContext) : ∀ {parts : List Part},
    (∀ part ∈ parts, (m.node? part.name).isSome = true) → ∀ numbering : Numbering,
      ∃ ws numbering', (Rule.editsOfTemplates cx m (templates parts)).run numbering =
          .ok (ws.flatMap Wrap.edits, numbering') ∧
        numbering.Hands (ws.map Wrap.draw) numbering' ∧ List.Forall₂ (Wrap.IsOf m) parts ws
  | [], _, numbering => ⟨[], numbering, rfl, .nil, .nil⟩
  | part :: parts, hnames, numbering => by
      obtain ⟨n, hn⟩ := Option.isSome_iff_exists.mp (hnames part List.mem_cons_self)
      have hnode : m.node part.name = .ok n := by rw [Match.node, hn]
      obtain ⟨ws, numbering', hrest, hands, hparts⟩ := exists_wraps_of_templates cx
        (fun part' h => hnames part' (List.mem_cons_of_mem part h))
        (numbering.next part.hook.category).2
      refine ⟨⟨n, part.hook, numbering.count part.hook.category⟩ :: ws, numbering', ?_, .cons hands,
        .cons ⟨hn, rfl⟩ hparts⟩
      have hbefore : (liftM (Rule.anchorRange m (.before part.name)) : Eval (Nat × Nat)).run
          numbering = .ok ((n.start, 0), numbering) := by
        rw [Rule.anchorRange, hnode]
        rfl
      have hafter : (liftM (Rule.anchorRange m (.after part.name)) : Eval (Nat × Nat)).run
          numbering = .ok ((n.stop, 0), numbering) := by
        rw [Rule.anchorRange, hnode]
        rfl
      have hliteral : (EditText.literal opener cx m).run numbering = .ok (some opener, numbering) :=
        rfl
      have hcloser : (closer part.hook cx m).run numbering =
          .ok (some (closerStem part.hook ++ toString (numbering.count part.hook.category) ++ ")"),
            (numbering.next part.hook.category).2) := rfl
      have htemplates : templates (part :: parts) = ⟨.before part.name, .literal opener⟩ ::
          ⟨.after part.name, closer part.hook⟩ :: templates parts := rfl
      have hbehind : (Rule.editsOfTemplates cx m
          (⟨.after part.name, closer part.hook⟩ :: templates parts)).run numbering =
            .ok (⟨n.stop, 0, closerStem part.hook ++
              toString (numbering.count part.hook.category) ++ ")"⟩ :: ws.flatMap Wrap.edits,
                numbering') := by
        rw [Rule.editsOfTemplates, run_bind_of_ok hafter]
        refine (run_bind_of_ok hcloser).trans ?_
        exact (run_bind_of_ok hrest).trans rfl
      rw [htemplates, Rule.editsOfTemplates, run_bind_of_ok hbefore]
      refine (run_bind_of_ok hliteral).trans ?_
      exact (run_bind_of_ok hbehind).trans rfl

/-- **The hooks of a visit**: one around each part that the target of the rule hooks. -/
def Makes (v : Visit) (ws : List Wrap) : Prop :=
  ∃ target, v.rule ∈ (targetSet target).rules ∧ List.Forall₂ (Wrap.IsOf v.found) target.parts ws

theorem listed_of_mem_targetSet (hr : r ∈ (targetSet target).rules) : r.Listed := by
  cases target with
  | arrayIndex => exact RuleSet.eq_of_mem_single hr ▸ .hookedIndex
  | pointer => exact .hookedPointer hr
  | integer => exact RuleSet.eq_of_mem_single hr ▸ .hookedOperands

/-- **A visit of a rule of hooks** puts hooks around the parts. -/
theorem exists_wraps_of_run {v : Visit} {cx : EditContext} {numbering numbering' : Numbering}
    {edits : List Edit} (hr : v.rule ∈ (targetSet target).rules) (hhas : v.found.Has v.rule.binds)
    (hrun : (v.rule.editsOf cx v.found).run numbering = .ok (edits, numbering')) :
    ∃ ws, edits = ws.flatMap Wrap.edits ∧ numbering.Hands (ws.map Wrap.draw) numbering' ∧
      Makes v ws := by
  rw [Rule.editsOf, edits_of_mem hr] at hrun
  obtain ⟨ws, numbering'', hrun', hands, hparts⟩ := exists_wraps_of_templates (m := v.found) cx
    (fun part hp => hhas part.name (binds_of_mem hr hp)) numbering
  obtain ⟨rfl, rfl⟩ := Prod.mk.inj (Except.ok.inj (hrun.symm.trans hrun'))
  exact ⟨ws, rfl, hands, target, hr, hparts⟩

/-! ## The hooks of a file -/

/-- **The node gets the hook** when the mutate pass goes through the file. -/
def Hooked (targets : List HookTarget) (u : SourceUnit) (h : Hook) (n : Node) : Prop :=
  ∃ vs, (pass targets).visits u .traversal = .ok vs ∧ ∃ v ∈ vs, ∃ target part,
    v.rule ∈ (targetSet target).rules ∧ part ∈ target.parts ∧ part.hook = h ∧
      v.found.node? part.name = some n

/-- **Hooked expressions stand clear of each other**: the tree is laid out, none starts where another
one ends, except right inside, and none spans its whole parent. -/
structure StandClear (targets : List HookTarget) (u : SourceUnit) : Prop where
  laidOut : u.root.tree.isLaidOut = true
  apart : ∀ h n h' n', Hooked targets u h n → Hooked targets u h' n' → n.stop = n'.start →
    n'.isWithin n = true
  narrower : ∀ h n p, Hooked targets u h n → n.parent? = some p → n.span ≠ p.span

/-- A rule of hooks that a traversal visits. -/
theorem exists_target {v : Visit} (hvs : (pass targets).visits u .traversal = .ok vs) (hv : v ∈ vs) :
    ∃ target, v.rule ∈ (targetSet target).rules := by
  obtain ⟨s, hs, hr⟩ := List.mem_flatMap.mp (Pass.mem_visits hvs hv).1
  rcases List.mem_append.mp hs with hs | hs
  · obtain ⟨target, -, rfl⟩ := List.mem_map.mp hs
    exact ⟨target, hr⟩
  · obtain rfl := List.mem_singleton.mp hs
    have hphase := Pass.phase_of_mem_visits hvs hv
    rw [RuleSet.eq_of_mem_single hr] at hphase
    contradiction

/-- The parts of a visited construct. -/
theorem fills_of_mem {v : Visit} (hu : u.root = .root t)
    (hvs : (pass targets).visits u .traversal = .ok vs) (hv : v ∈ vs)
    (hr : v.rule ∈ (targetSet target).rules) {part : Part} (hp : part ∈ target.parts)
    (hn : v.found.node? part.name = some n) :
    part.Fills target v.found.root n ∧ v.found.root.PlaceOf t := by
  obtain ⟨hrule, ms, hms, hfound⟩ := Pass.mem_visits hvs hv
  have hoffers := (Rule.offers_of_mem_matchesIn hms hfound).1
  exact ⟨relates_of_mem hr hp hu hoffers hn,
    ((listed_of_mem_targetSet hr).insertive.of_offers hu hoffers).1.root⟩

/-- What a match of a rule of hooks is about. -/
theorem kind_of_isFrom {v : Visit} (hu : u.root = .root t)
    (hv : v.IsFrom u (targetSet target).rules) :
    v.found.root.PlaceOf t ∧ v.found.root.kind ∈ target.kinds := by
  obtain ⟨hr, ms, hms, hfound⟩ := hv
  have hoffers := (Rule.offers_of_mem_matchesIn hms hfound).1
  obtain ⟨hwithin, hhas⟩ := (listed_of_mem_targetSet hr).insertive.of_offers hu hoffers
  obtain ⟨part, hp⟩ := List.exists_mem_of_ne_nil _ target.parts_ne_nil
  obtain ⟨n, hn⟩ := Option.isSome_iff_exists.mp (hhas part.name (binds_of_mem hr hp))
  exact ⟨hwithin.root, (relates_of_mem hr hp hu hoffers hn).kind⟩

/-- **The visits of rules of hooks** are about different constructs. -/
theorem apart_visits (hu : u.root = .root t) (hvs : (pass targets).visits u .traversal = .ok vs) :
    Visit.Apart vs := by
  refine Pass.apart_visits hvs rfl (by decide) (fun s hs base vs hvs => ?_) ?_
  · obtain ⟨target, -, rfl⟩ := List.mem_map.mp hs
    cases target <;> rw [targetSet] at hvs
    case arrayIndex | integer =>
      rw [RuleSet.visits] at hvs
      exact RuleSet.apart_visitsOf hvs
    case pointer =>
      rw [pointerSet, RuleSet.visits] at hvs
      exact (RuleSet.apart_visitsOfFirst hvs).1
  · have hdistinct : (HookTarget.all.filter targets.contains).Nodup :=
      (by decide : HookTarget.all.Nodup).filter _
    refine List.pairwise_map.mpr (hdistinct.imp fun {target target'} hne v w hv hw => ?_)
    obtain ⟨hplace, hkind⟩ := kind_of_isFrom hu hv
    obtain ⟨hplace', hkind'⟩ := kind_of_isFrom hu hw
    refine Bool.eq_false_iff.mpr fun hsame => hne ?_
    rw [hplace.eq_of_path_eq hplace' (beq_iff_eq.mp hsame)] at hkind
    exact HookTarget.eq_of_mem_kinds hkind hkind'

/-- **A hook comes before the hooks around it.** -/
theorem not_isWithin_of_postOrderLe {v w : Visit} {part part' : Part} {n n' : Node}
    (ht : t.isLaidOut = true) (hv : v.found.root.PlaceOf t) (hw : w.found.root.PlaceOf t)
    (hn : part.Fills target v.found.root n) (hn' : part'.Fills target' w.found.root n')
    (hnarrower : n.span ≠ v.found.root.span) (hle : v.postOrderLe w = true)
    (hapart : v.found.root.sameAs w.found.root = false) : n'.isWithin n = false := by
  obtain ⟨i, hi, hchild⟩ := List.mem_mapIdx.mp hn.mem
  obtain ⟨j, hj, hchild'⟩ := List.mem_mapIdx.mp hn'.mem
  have hplace : n.PlaceOf t := hv.of_mem_children hn.mem
  rw [Visit.postOrderLe_iff] at hle
  refine Bool.eq_false_iff.mpr fun hwithin => ?_
  rw [← hchild', isWithin_child_iff] at hwithin
  rcases hwithin with hpath | hwithin
  · rw [← hchild] at hpath
    have hsame : v.found.root.path = w.found.root.path := (List.cons.inj hpath).2
    rw [Node.sameAs, hsame, beq_self_eq_true] at hapart
    contradiction
  · -- the construct of the later hook would lie inside the part, and so end or start inside
    obtain ⟨hstart, hstop⟩ := hw.span_isWithin ht hplace hwithin
    have hspan := hw.start_le_stop ht
    have hinside : v.found.root.start ≤ n.start ∧ n.stop ≤ v.found.root.stop := by
      rw [← hchild] at hplace ⊢
      exact hplace.span_child ht
    have hne : ¬ (n.start = v.found.root.start ∧ n.stop = v.found.root.stop) := fun heq =>
      hnarrower (span_eq_of_edges heq.1 heq.2)
    omega

/-- Parts of one construct do not lie within each other. -/
theorem not_isWithin_of_fills {main n n' : Node} {part part' : Part} (hmain : main.PlaceOf t)
    (hn : part.Fills target main n) (hn' : part'.Fills target main n')
    (hne : part.field ≠ part'.field) : n'.isWithin n = false := by
  refine Bool.eq_false_iff.mpr fun hwithin => ?_
  have hplace := hmain.of_mem_children hn.mem
  have hplace' := hmain.of_mem_children hn'.mem
  obtain ⟨i, hi, hchild⟩ := List.mem_mapIdx.mp hn.mem
  obtain ⟨j, hj, hchild'⟩ := List.mem_mapIdx.mp hn'.mem
  rw [← hchild', isWithin_child_iff] at hwithin
  rcases hwithin with hpath | hwithin
  · rw [← path, hchild'] at hpath
    have hfields := hn.field.symm.trans (hplace.eq_of_path_eq hplace' hpath ▸ hn'.field)
    exact hne (Option.some.inj hfields)
  · rw [← hchild, not_isWithin_child] at hwithin
    contradiction

variable {mine : List (Visit × List Wrap)} {w : Wrap}

/-- Each hook of a visit is around a part. -/
theorem Makes.exists_part {v : Visit} {ws : List Wrap} (h : Makes v ws) (hw : w ∈ ws) :
    ∃ target part, v.rule ∈ (targetSet target).rules ∧ part ∈ target.parts ∧
      w.IsOf v.found part := by
  obtain ⟨target, hr, hparts⟩ := h
  obtain ⟨part, hp, hof⟩ := exists_of_forall₂_of_mem hparts hw
  exact ⟨target, part, hr, hp, hof⟩

/-- **The hooks of the visits** are around the hooked expressions. -/
theorem hooked_iff (hu : u.root = .root t) (hvs : (pass targets).visits u .traversal = .ok vs)
    (hmine : mine.map Prod.fst = vs) (hmakes : ∀ p ∈ mine, Makes p.1 p.2) :
    (∃ w ∈ mine.flatMap Prod.snd, w.hook = h ∧ w.place = n) ↔ Hooked targets u h n := by
  constructor
  · rintro ⟨w, hw, rfl, rfl⟩
    obtain ⟨p, hp, hw⟩ := List.mem_flatMap.mp hw
    obtain ⟨target, part, hr, hpart, hof⟩ := (hmakes p hp).exists_part hw
    exact ⟨vs, hvs, p.1, hmine ▸ List.mem_map_of_mem hp, target, part, hr, hpart, hof.hook.symm,
      hof.place⟩
  · rintro ⟨vs', hvs', v, hv, target, part, hr, hpart, rfl, hn⟩
    obtain rfl := Except.ok.inj (hvs.symm.trans hvs')
    rw [← hmine] at hv
    obtain ⟨p, hp, rfl⟩ := List.mem_map.mp hv
    obtain ⟨target', hr', hparts⟩ := hmakes p hp
    obtain ⟨hkind, hkind'⟩ : p.1.found.root.kind ∈ target.kinds ∧
        p.1.found.root.kind ∈ target'.kinds := by
      have hfrom := (Pass.mem_visits hvs (hmine ▸ List.mem_map_of_mem hp)).2
      exact ⟨(kind_of_isFrom hu ⟨hr, hfrom⟩).2, (kind_of_isFrom hu ⟨hr', hfrom⟩).2⟩
    obtain rfl := HookTarget.eq_of_mem_kinds hkind hkind'
    obtain ⟨w, hw, hof⟩ := exists_of_forall₂_of_mem hparts.flip hpart
    refine ⟨w, List.mem_flatMap.mpr ⟨p, hp, hw⟩, hof.hook, ?_⟩
    exact Option.some.inj (hof.place.symm.trans hn)

/-- **The hooks of a file nest**, if hooked expressions stand clear of each other. -/
theorem nested_of_visits (hu : u.root = .root t) (hclear : StandClear targets u)
    (hvs : (pass targets).visits u .traversal = .ok vs) (hmine : mine.map Prod.fst = vs)
    (hmakes : ∀ p ∈ mine, Makes p.1 p.2) : Nested t (mine.flatMap Prod.snd) := by
  have ht : t.isLaidOut = true := by
    have hlaid := hclear.laidOut
    rwa [hu] at hlaid
  have hfills : ∀ p ∈ mine, ∀ {target part w}, p.1.rule ∈ (targetSet target).rules →
      part ∈ target.parts → Wrap.IsOf p.1.found part w →
        part.Fills target p.1.found.root w.place ∧ p.1.found.root.PlaceOf t :=
    fun p hp {target part w} hr hpart hof =>
      fills_of_mem hu hvs (hmine ▸ List.mem_map_of_mem hp) hr hpart hof.place
  have hhooked : ∀ w ∈ mine.flatMap Prod.snd, Hooked targets u w.hook w.place := fun w hw =>
    (hooked_iff hu hvs hmine hmakes).mp ⟨w, hw, rfl, rfl⟩
  refine ⟨fun w hw => ?_, ?_, fun v hv w hw => hclear.apart _ _ _ _ (hhooked v hv) (hhooked w hw)⟩
  · obtain ⟨p, hp, hw⟩ := List.mem_flatMap.mp hw
    obtain ⟨target, part, hr, hpart, hof⟩ := (hmakes p hp).exists_part hw
    obtain ⟨hfills, hplace⟩ := hfills p hp hr hpart hof
    exact hplace.of_mem_children hfills.mem
  · refine List.pairwise_flatMap.mpr ⟨fun p hp => ?_, ?_⟩
    · obtain ⟨target, hr, hparts⟩ := hmakes p hp
      have hfields : target.parts.Pairwise fun part part' =>
          part ∈ target.parts ∧ part' ∈ target.parts ∧ part.field ≠ part'.field := by
        cases target <;> simp [HookTarget.parts]
      refine pairwise_of_forall₂ (fun part part' w w' hne hof hof' => ?_) hparts hfields
      obtain ⟨hn, hplace⟩ := hfills p hp hr hne.1 hof
      exact not_isWithin_of_fills hplace hn (hfills p hp hr hne.2.1 hof').1 hne.2.2
    · have hpairs : mine.Pairwise fun p q => p.1.postOrderLe q.1 = true ∧
          p.1.found.root.sameAs q.1.found.root = false := by
        have hsorted := Pass.postOrder_visits (p := pass targets) rfl hvs
        have hapart := apart_visits hu hvs
        rw [← hmine] at hsorted hapart
        exact (List.pairwise_map.mp hsorted).and (List.pairwise_map.mp hapart)
      refine hpairs.imp_of_mem fun {p q} hp hq hpq v hv w hw => ?_
      obtain ⟨target, part, hr, hpart, hof⟩ := (hmakes p hp).exists_part hv
      obtain ⟨target', part', hr', hpart', hof'⟩ := (hmakes q hq).exists_part hw
      obtain ⟨hn, hplace⟩ := hfills p hp hr hpart hof
      obtain ⟨hn', hplace'⟩ := hfills q hq hr' hpart' hof'
      refine not_isWithin_of_postOrderLe ht hplace hplace' hn hn' ?_ hpq.1 hpq.2
      exact hclear.narrower _ _ _ (hhooked v (List.mem_flatMap.mpr ⟨p, hp, hv⟩))
        (Node.parent?_of_mem_children hn.mem)

end Hooks

end ProbeWeaver
