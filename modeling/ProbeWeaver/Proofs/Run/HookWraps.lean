import Mathlib.Data.List.Pairwise
import ProbeWeaver.Proofs.Passes.HookLines
import ProbeWeaver.Proofs.Passes.Statements
import ProbeWeaver.Proofs.Run.HookNumbers
import ProbeWeaver.Proofs.Run.Outputs

/-!
# Proofs/Run/HookWraps — hooks around expressions in the text of a file

The mutate pass puts its hooks around expressions one after the other (`Steps.exists_wraps`), inner
ones first, so in the output they nest.  What other passes insert stays outside a hooked expression
unless it goes to one of its ends at the wrong time.

* `Hooks.Hooking` — one hook around each hooked expression, with numbers in order.
* `Pipeline.exists_accounts` — the edits of each file: what earlier passes made, nesting hooks, the
  lines that define them, and what later passes made.
-/

namespace ProbeWeaver

open Text Hooks

variable {t : Tree} {u : SourceUnit} {place : Nat} {targets : List HookTarget} {config : RunSettings}

/-! ## Numbers in order -/

namespace Numbering.Hands

variable {numbering numbering' : Numbering} {draws : List Draw} {x : Draw}

theorem count_le_number (h : numbering.Hands draws numbering') (hx : x ∈ draws) :
    numbering.count x.category ≤ x.number := by
  have hmem : x.number ∈ Draw.numbersOf x.category draws := Draw.mem_numbersOf.mpr hx
  rw [h.numbersOf_eq, List.mem_range'_1] at hmem
  exact hmem.1

/-- **Of two numbers of a category** the one drawn first is smaller. -/
theorem pairwise_number (h : numbering.Hands draws numbering') :
    draws.Pairwise fun x y => x.category = y.category → x.number < y.number := by
  induction h with
  | nil => exact .nil
  | @cons numbering numbering' c draws rest ih =>
    refine List.pairwise_cons.mpr ⟨fun y hy hc => ?_, ih⟩
    have hle := rest.count_le_number hy
    rw [Numbering.count_next, if_pos hc.symm] at hle
    exact hle

end Numbering.Hands

/-! ## The hooks of a pass -/

namespace RunState

variable {s s' : RunState} {log : List Event}

/-- **Events of hooks** put hooks around places, one after the other, with numbers in order. -/
theorem Steps.exists_wraps (h : Steps s log s')
    (hcalls : ∀ ev ∈ log, ∃ u t, IsListedCall s.units ev.call u t)
    (hhooks : ∀ ev ∈ log, ∃ target, ev.visit.rule ∈ (targetSet target).rules) :
    ∃ wraps : List (Event × List Wrap), wraps.map Prod.fst = log ∧
      (∀ p ∈ wraps, p.1.edits = p.2.flatMap Wrap.edits ∧ Makes p.1.visit p.2) ∧
        s.numbering.Hands ((wraps.flatMap Prod.snd).map Wrap.draw) s'.numbering := by
  induction h with
  | nil => exact ⟨[], rfl, fun p hp => absurd hp List.not_mem_nil, .nil⟩
  | @cons s s' s'' ev log step rest ih =>
    obtain ⟨u, t, hcall⟩ := hcalls ev List.mem_cons_self
    obtain ⟨target, hr⟩ := hhooks ev List.mem_cons_self
    obtain ⟨file, hslot, hmade⟩ := step.exists_made
    have hhas := (hcall.listed.insertive.of_offers hcall.root hcall.offers).2
    obtain ⟨ws, hedits, hands, hmakes⟩ := exists_wraps_of_run hr hhas hmade
    obtain ⟨wraps, hlog, hwraps, hrest⟩ := ih
      (fun ev' hev' => step.units_eq ▸ hcalls ev' (List.mem_cons_of_mem ev hev'))
      fun ev' hev' => hhooks ev' (List.mem_cons_of_mem ev hev')
    refine ⟨(ev, ws) :: wraps, by rw [List.map_cons, hlog], fun p hp => ?_, ?_⟩
    · rcases List.mem_cons.mp hp with rfl | hp
      · exact ⟨hedits, hmakes⟩
      · exact hwraps p hp
    · rw [List.flatMap_cons, List.map_append]
      exact hands.append hrest

end RunState

/-- **The hooks of a file**: one around each hooked expression, the inner one of two hooks of the same
tag with the smaller number. -/
structure Hooks.Hooking (targets : List HookTarget) (u : SourceUnit) (ws : List Wrap) : Prop where
  hooked : ∀ h n, (∃ w ∈ ws, w.hook = h ∧ w.place = n) ↔ Hooked targets u h n
  once : ws.Pairwise fun v w => v.place.sameAs w.place = false
  smaller : ∀ v ∈ ws, ∀ w ∈ ws, v.hook = w.hook → v.place ≠ w.place →
    v.place.isWithin w.place = true → v.number < w.number

/-- Two members of a list in order come one before the other. -/
theorem rel_or_rel_of_pairwise {α : Type} {R : α → α → Prop} {l : List α} {a b : α}
    (h : l.Pairwise R) (ha : a ∈ l) (hb : b ∈ l) (hne : a ≠ b) : R a b ∨ R b a := by
  have : Std.Symm fun a b => R a b ∨ R b a := ⟨fun _ _ => Or.symm⟩
  have hboth : l.Pairwise fun a b => R a b ∨ R b a := h.imp Or.inl
  exact hboth.forall ha hb hne

/-- Hooks that nest, with numbers in order. -/
theorem Hooks.Nested.hooking {ws : List Wrap} (h : Nested t ws)
    (hnumbers : ws.Pairwise fun v w => v.hook.category = w.hook.category → v.number < w.number)
    (hhooked : ∀ h n, (∃ w ∈ ws, w.hook = h ∧ w.place = n) ↔ Hooked targets u h n) :
    Hooking targets u ws := by
  refine ⟨hhooked, h.inner.imp fun {v w} hnot => ?_, fun v hv w hw hhook hne hwithin => ?_⟩
  · refine Bool.eq_false_iff.mpr fun hsame => Bool.eq_false_iff.mp hnot ?_
    exact Node.isWithin_iff.mpr ((beq_iff_eq.mp hsame : v.place.path = w.place.path) ▸
      List.suffix_refl _)
  · have hvw : v ≠ w := fun heq => hne (congrArg Wrap.place heq)
    rcases rel_or_rel_of_pairwise (hnumbers.and h.inner) hv hw hvw with hlt | hlt
    · exact hlt.1 (congrArg Hook.category hhook)
    · rw [hlt.2] at hwithin
      contradiction

/-! ## The mutate pass among others -/

/-- **The rules of other passes** are no rules of hooks. -/
theorem Hooks.not_mem_targetSet {kind : PassKind} {r : Rule} (hkind : kind ≠ .mutate)
    (hr : r ∈ (Pass.ofKind config kind).rules) (target : HookTarget) :
    r ∉ (targetSet target).rules := by
  intro hmem
  have hnames : ∀ r ∈ (targetSet target).rules, r.name ∈ PassKind.ruleNames .mutate := by
    cases target <;> decide
  exact hkind (PassKind.eq_of_mem_ruleNames (Pass.name_mem_ruleNames hr) (hnames r hmem))

/-- The late rule of the mutate pass is that of definitions. -/
theorem Hooks.eq_definitionRule {r : Rule} (hr : r ∈ (Hooks.pass targets).rules)
    (hlate : r.phase = .late) : r = definitionRule := by
  obtain ⟨s, hs, hr⟩ := List.mem_flatMap.mp hr
  rcases List.mem_append.mp hs with hs | hs
  · obtain ⟨target, -, rfl⟩ := List.mem_map.mp hs
    rw [phase_of_mem_targetSet hr] at hlate
    contradiction
  · obtain rfl := List.mem_singleton.mp hs
    exact RuleSet.eq_of_mem_single hr

theorem Hooks.definitionLines_append (lines more : List (Hook × Nat)) :
    definitionLines (lines ++ more) = definitionLines lines ++ definitionLines more := by
  rw [definitionLines, List.map_append, String.join_append]
  rfl

/-- The edits for a file, one event before the others. -/
theorem editsFor_cons (place : Nat) (ev : Event) (log : List Event) :
    editsFor place (ev :: log) =
      if ev.place = place then ev.edits ++ editsFor place log else editsFor place log := by
  rw [show ev :: log = [ev] ++ log from rfl, editsFor_append]
  split
  · next h => rw [← h, editsFor_singleton]
  · next h =>
    rw [editsFor_of_forall_ne fun ev' hev' => List.mem_singleton.mp hev' ▸ h]
    rfl

/-- **Events of definitions** write lines at the start of their file. -/
theorem RunState.Steps.exists_definitionLines {s s' : RunState} {log : List Event}
    (h : Steps s log s') (place : Nat) (hrules : ∀ ev ∈ log, ev.visit.rule = definitionRule) :
    (∀ e ∈ editsFor place log, e.offset = 0) ∧
      ∃ lines, textAt (editsFor place log) 0 = definitionLines lines := by
  induction h with
  | nil => exact ⟨fun e he => absurd he List.not_mem_nil, [], rfl⟩
  | @cons s s' s'' ev log step rest ih =>
    obtain ⟨hoffsets, lines, hlines⟩ := ih fun ev' hev' => hrules ev' (List.mem_cons_of_mem ev hev')
    rw [editsFor_cons]
    split
    · obtain ⟨file, -, hmade⟩ := step.exists_made
      rw [hrules ev List.mem_cons_self] at hmade
      obtain ⟨edits, hrun, hstart, htext⟩ := exists_editsOf_definitionRule
        ⟨file.unit, file.edits⟩ ev.visit.found s.numbering
      obtain ⟨rfl, -⟩ := Prod.mk.inj (Except.ok.inj (hmade.symm.trans hrun))
      refine ⟨fun e he => ?_, defined file.edits all ++ lines, ?_⟩
      · exact (List.mem_append.mp he).elim (hstart e) (hoffsets e)
      · rw [textAt_append, htext, hlines, definitionLines_append]
    · exact ⟨hoffsets, lines, hlines⟩

/-- **The edits of a file around its hooks**: what earlier passes made, the hooks, the lines that
define them, and what later passes made. -/
structure Hooks.Account (front back : List Pass) (targets : List HookTarget) (u : SourceUnit)
    (ws : List Wrap) (pre lines post : List Edit) : Prop where
  nested : Nested u.root.tree ws
  hooking : Hooking targets u ws
  pre : ∀ e ∈ pre, ∃ p ∈ front, p.AnchorsAt u e.offset
  start : ∀ e ∈ lines, e.offset = 0
  lines : ∃ defined, textAt lines 0 = definitionLines defined
  post : ∀ e ∈ post, ∃ p ∈ back, p.AnchorsAt u e.offset

namespace RunState

variable {s s' : RunState} {log : List Event}

/-- **The events of the mutate pass** on its way through the files. -/
theorem Steps.exists_hooking (h : Steps s log s')
    (hcalls : ∀ ev ∈ log, ∃ u t, IsListedCall s.units ev.call u t)
    (hlog : log.map Event.call = callsFrom (Hooks.pass targets) .traversal 0 s.units)
    (hunit : s.units[place]? = some (some u)) (hu : u.root = .root t)
    (hclear : StandClear targets u) :
    ∃ ws, editsFor place log = ws.flatMap Wrap.edits ∧ Nested t ws ∧ Hooking targets u ws := by
  have hhooks : ∀ ev ∈ log, ∃ target, ev.visit.rule ∈ (targetSet target).rules := by
    intro ev hev
    have hmem : (ev.place, ev.visit) ∈ callsFrom (Hooks.pass targets) .traversal 0 s.units :=
      hlog ▸ List.mem_map_of_mem hev
    obtain ⟨v, vs, -, -, hvs, hv⟩ := mem_callsFrom hmem
    exact exists_target hvs hv
  obtain ⟨wraps, rfl, hwraps, hands⟩ := h.exists_wraps hcalls hhooks
  obtain ⟨vs, hvs⟩ : ∃ vs, (Hooks.pass targets).visits u .traversal = .ok vs := by
    have hpass : (Hooks.pass targets).Insertive :=
      Pass.insertive_ofKind { targets := targets } .mutate
    exact hpass.exists_visits hu .traversal
  have hvisits := filter_of_calls hlog hunit
  rw [Pass.visitsIn, hvs, List.filter_map, List.map_map] at hvisits
  let here := wraps.filter fun p => p.1.place == place
  have hmine : (here.map fun p => (p.1.visit, p.2)).map Prod.fst = vs := by
    rw [List.map_map]
    exact hvisits
  have hmakes : ∀ p ∈ here.map fun p => (p.1.visit, p.2), Makes p.1 p.2 := by
    intro p hp
    obtain ⟨q, hq, rfl⟩ := List.mem_map.mp hp
    exact (hwraps q (List.mem_filter.mp hq).1).2
  have hflat : (here.map fun p => (p.1.visit, p.2)).flatMap Prod.snd = here.flatMap Prod.snd :=
    List.flatMap_map ..
  have hnested := nested_of_visits hu hclear hvs hmine hmakes
  refine ⟨here.flatMap Prod.snd, ?_, hflat ▸ hnested, (hflat ▸ hnested).hooking ?_ fun h n => ?_⟩
  · rw [editsFor, List.filter_map, List.flatMap_map, List.flatMap_assoc]
    exact List.flatMap_congr fun p hp => (hwraps p (List.mem_filter.mp hp).1).1
  · have hsublist : (here.flatMap Prod.snd).Sublist (wraps.flatMap Prod.snd) :=
      List.filter_sublist.flatMap _
    exact (List.pairwise_map.mp hands.pairwise_number).sublist hsublist
  · rw [← hflat]
    exact hooked_iff hu hvs hmine hmakes

end RunState

namespace Pipeline

open RunState

/-- **The hooks of a run.**  Whatever the passes around the mutate pass, as long as it is listed once:
the run succeeds, and each file whose hooked expressions stand clear of each other comes out with
nesting hooks between what earlier and what later passes made. -/
theorem exists_accounts (config : RunSettings) (honce : config.passes.count .mutate = 1)
    (validateOutput dryRun : Bool) (files : List SourceFile)
    (hfiles : ∀ file ∈ files, file.SpansFit) :
    ∃ front back, (build config.selectedPasses validateOutput dryRun).passes =
        front ++ Hooks.pass config.targets :: back ∧ (∀ p ∈ front ++ back, p.IsOther .mutate) ∧
      ∃ summary, ((build config.selectedPasses validateOutput dryRun).perform files).1 =
          .ok summary ∧
        ∀ (place : Nat) (u : SourceUnit), (files.map (·.unit?))[place]? = some (some u) →
          StandClear config.targets u →
          ∃ (file : FileSummary) (ws : List Wrap) (pre lines post : List Edit),
            summary.files[place]? = some file ∧
              u.ComesOut (pre ++ (ws.flatMap Wrap.edits ++ (lines ++ post))) file ∧
                Account front back config.targets u ws pre lines post := by
  obtain ⟨front, back, hpasses, hothers, summary, before, mine, late, after, hrun, hbefore, hmine,
    hlate, hafter, -, hout⟩ := exists_stretches config (by decide : PassKind.mutate ≠ .braces) honce
      validateOutput dryRun files hfiles
  refine ⟨front, back, hpasses, hothers, summary, hrun, fun place u hunit hclear => ?_⟩
  obtain ⟨file, hfile, hcomes⟩ := hout place u hunit
  obtain ⟨t, hu⟩ := isRooted_units files u (List.mem_of_getElem? hunit)
  obtain ⟨s₁, _, hsteps₁, hunits₁⟩ := hbefore.steps
  obtain ⟨s₂, _, hsteps₂, hunits₂⟩ := hmine.steps
  obtain ⟨s₃, _, hsteps₃, -⟩ := hlate.steps
  obtain ⟨s₄, _, hsteps₄, hunits₄⟩ := hafter.steps
  obtain ⟨ws, hws, hnested, hhooking⟩ := hsteps₂.exists_hooking (hunits₂ ▸ hmine.listed)
    (hunits₂ ▸ hmine.calls) (hunits₂ ▸ hunit) hu hclear
  have hlateRules : ∀ ev ∈ late, ev.visit.rule = definitionRule := by
    intro ev hev
    have hmem : (ev.place, ev.visit) ∈
        callsFrom (Hooks.pass config.targets) .late 0 (files.map (·.unit?)) :=
      hlate.calls ▸ List.mem_map_of_mem hev
    obtain ⟨hrule, hphase⟩ := mem_rules_of_mem_callsFrom hmem
    exact eq_definitionRule hrule hphase
  obtain ⟨hlines, hdefined⟩ := hsteps₃.exists_definitionLines place hlateRules
  refine ⟨file, ws, editsFor place before, editsFor place late, editsFor place after, hfile,
    hws ▸ hcomes, ?_⟩
  refine ⟨by rw [hu]; exact hnested, hhooking, fun e he => ?_, hlines, hdefined, fun e he => ?_⟩
  · exact hsteps₁.exists_anchorsAt (hunits₁ ▸ hbefore.listed) (hunits₁ ▸ hbefore.calls)
      (hunits₁ ▸ hunit) he
  · exact hsteps₄.exists_anchorsAt (hunits₄ ▸ hafter.listed) (hunits₄ ▸ hafter.calls)
      (hunits₄ ▸ hunit) he

end Pipeline

end ProbeWeaver
