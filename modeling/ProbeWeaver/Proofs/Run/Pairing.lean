import ProbeWeaver.Proofs.Passes.Balance
import ProbeWeaver.Proofs.Run.Enclosures
import ProbeWeaver.Proofs.Tree.Braced

/-!
# Proofs/Run/Pairing — what a run inserts comes in pairs of braces

The edits of a run are wraps of statements without a block, made by the braces pass, and texts with
their braces in pairs (`RunState.Ran.isPaired`).  A window of offsets that holds the end of each
statement whose start it holds cuts closing braces off from their opening ones, and never the other
way round (`IsPaired.riseOf_le`); if it holds starts and ends alike, it cuts off none
(`IsPaired.even_filter`).  If it holds the ends at one offset without their starts, whether it cuts
any off depends on whether a statement ends there (`RunState.IsStretchOf.riseOf_window`).
-/

namespace ProbeWeaver

open Text RunState
open Node (Unblocked Controls)

variable {P Q : Node → Prop} {c : Node} {edits more : List Edit} {e : Edit} {w : Nat → Bool}
  {u : SourceUnit} {t : Tree} {place : Nat} {p : Pass} {passes : List Pass} {ev : Event}
  {units : List (Option SourceUnit)} {log : List Event} {calls : List (Nat × Visit)}

/-! ## Edits in pairs -/

/-- **The edits keep braces in pairs**: they are wraps of some of the statements, and texts with their
braces in pairs. -/
inductive IsPaired (P : Node → Prop) : List Edit → Prop
  | nil : IsPaired P []
  | even {e : Edit} {edits : List Edit} (text : IsBalanced e.text) (rest : IsPaired P edits) :
      IsPaired P (e :: edits)
  | wrap {c : Node} {edits : List Edit} (wrapped : P c) (rest : IsPaired P edits) :
      IsPaired P (Braces.edits c ++ edits)

namespace IsPaired

theorem mono (h : IsPaired P edits) (hPQ : ∀ c, P c → Q c) : IsPaired Q edits := by
  induction h with
  | nil => exact .nil
  | even text _ ih => exact .even text ih
  | wrap wrapped _ ih => exact .wrap (hPQ _ wrapped) ih

theorem append (h : IsPaired P edits) (hmore : IsPaired P more) : IsPaired P (edits ++ more) := by
  induction h with
  | nil => exact hmore
  | even text _ ih => exact .even text ih
  | wrap wrapped _ ih =>
    rw [List.append_assoc]
    exact .wrap wrapped ih

theorem of_even : ∀ {edits : List Edit}, (∀ e ∈ edits, IsBalanced e.text) → IsPaired P edits
  | [], _ => .nil
  | e :: _, h =>
      .even (h e List.mem_cons_self) (of_even fun d hd => h d (List.mem_cons_of_mem e hd))

/-- A wrap is in pairs. -/
theorem of_wrap (h : P c) : IsPaired P (Braces.edits c) := by
  have hwrap := IsPaired.wrap h .nil
  rwa [List.append_nil] at hwrap

theorem flatMap {α : Type} {f : α → List Edit} :
    ∀ {l : List α}, (∀ a ∈ l, IsPaired P (f a)) → IsPaired P (l.flatMap f)
  | [], _ => .nil
  | a :: l, h => by
      rw [List.flatMap_cons]
      exact (h a List.mem_cons_self).append (flatMap fun b hb => h b (List.mem_cons_of_mem a hb))

end IsPaired

/-! ## Windows -/

theorem rise_opening : rise Braces.opening.toList = 1 := by decide

theorem rise_closing : rise Braces.closing.toList = -1 := by decide

theorem lowAtEnds_opening : LowAtEnds Braces.opening := by
  have hfronts : ∀ front ∈ Braces.opening.toList.inits,
      min 0 (rise Braces.opening.toList) ≤ rise front := by decide
  exact fun front hfront => hfronts front ((List.mem_inits _ _).mpr hfront)

theorem lowAtEnds_closing : LowAtEnds Braces.closing := by
  have hfronts : ∀ front ∈ Braces.closing.toList.inits,
      min 0 (rise Braces.closing.toList) ≤ rise front := by decide
  exact fun front hfront => hfronts front ((List.mem_inits _ _).mpr hfront)

namespace IsPaired

theorem lowAtEnds (h : IsPaired P edits) : ∀ e ∈ edits, LowAtEnds e.text := by
  induction h with
  | nil => exact fun e he => absurd he List.not_mem_nil
  | even text _ ih => exact List.forall_mem_cons.mpr ⟨text.lowAtEnds, ih⟩
  | wrap _ _ ih =>
    exact List.forall_mem_cons.mpr
      ⟨lowAtEnds_opening, List.forall_mem_cons.mpr ⟨lowAtEnds_closing, ih⟩⟩

end IsPaired

/-- How far a wrap rises in a window. -/
theorem riseOf_filter_wrap (c : Node) : riseOf ((Braces.edits c).filter (w ·.offset)) =
    (if w c.start then 1 else 0) - if w c.stop then 1 else 0 := by
  have hboth : riseOf (Braces.edits c) = 0 := by
    rw [riseOf, Braces.edits, List.map_cons, List.map_cons, rise_opening, rise_closing]
    rfl
  rw [Braces.edits, List.filter_cons, List.filter_cons, List.filter_nil]
  cases w c.start <;> cases w c.stop <;>
    simp [riseOf, rise_opening, rise_closing]

/-- How low a wrap gets in a window that holds both of its ends, or none. -/
theorem lowAt_filter_wrap (hspan : c.start < c.stop) (hw : w c.start = w c.stop) (o : Nat) :
    0 ≤ lowAt ((Braces.edits c).filter (w ·.offset)) o := by
  rw [Braces.edits, List.filter_cons, List.filter_cons, List.filter_nil, ← hw]
  cases w c.start with
  | false => exact Int.le_refl 0
  | true =>
    simp only [lowAt, if_true, List.map_cons, List.map_nil, List.sum_cons, List.sum_nil,
      rise_opening, rise_closing]
    omega

namespace IsPaired

/-- **A window that cuts off no opening brace** does not rise. -/
theorem riseOf_le (h : IsPaired P edits) (hw : ∀ c, P c → w c.start = true → w c.stop = true) :
    riseOf (edits.filter (w ·.offset)) ≤ 0 := by
  induction h with
  | nil => exact Int.le_refl 0
  | @even e edits text _ ih =>
    rw [List.filter_cons]
    split
    · have hzero : riseOf (e :: edits.filter (w ·.offset)) = riseOf (edits.filter (w ·.offset)) := by
        rw [riseOf, List.map_cons, List.sum_cons, (isBalanced_iff.mp text).1, Int.zero_add]
        rfl
      exact hzero ▸ ih
    · exact ih
  | @wrap c edits wrapped _ ih =>
    rw [List.filter_append, riseOf_append, riseOf_filter_wrap]
    by_cases hstart : w c.start = true
    · rw [if_pos hstart, if_pos (hw c wrapped hstart)]
      omega
    · rw [if_neg hstart]
      split <;> omega

/-- **A window that cuts off no brace** ends where it starts, and is never lower. -/
theorem even_filter (h : IsPaired P edits) (hspan : ∀ c, P c → c.start < c.stop)
    (hw : ∀ c, P c → w c.start = w c.stop) :
    riseOf (edits.filter (w ·.offset)) = 0 ∧ ∀ o, 0 ≤ lowAt (edits.filter (w ·.offset)) o := by
  induction h with
  | nil => exact ⟨rfl, fun o => Int.le_refl 0⟩
  | @even e edits text _ ih =>
    rw [List.filter_cons]
    split
    · have hzero := (isBalanced_iff.mp text).1
      refine ⟨?_, fun o => ?_⟩
      · rw [riseOf, List.map_cons, List.sum_cons, hzero, Int.zero_add]
        exact ih.1
      · have hlow : lowAt (e :: edits.filter (w ·.offset)) o =
            lowAt (edits.filter (w ·.offset)) o := by
          rw [lowAt, List.map_cons, List.sum_cons, hzero, Int.min_self, ite_self, ite_self,
            Int.zero_add]
          rfl
        exact hlow ▸ ih.2 o
    · exact ih
  | @wrap c edits wrapped _ ih =>
    rw [List.filter_append]
    refine ⟨?_, fun o => ?_⟩
    · rw [riseOf_append, riseOf_filter_wrap, hw c wrapped, ih.1, Int.sub_self]
      rfl
    · rw [lowAt_append]
      have := lowAt_filter_wrap (hspan c wrapped) (hw c wrapped) o
      have := ih.2 o
      omega

end IsPaired

/-! ## Runs -/

/-- What a rule makes that keeps braces in pairs. -/
theorem Rule.KeepsPairs.isBalanced {r : Rule} {m : Match} {cx : EditContext} {draws : List Draw}
    (h : r.KeepsPairs cx.unit m) (hmakes : r.Makes cx m e draws) : IsBalanced e.text := by
  obtain ⟨template, htemplate, -, -, numbering, numbering', hrun, -⟩ := hmakes
  obtain ⟨_, -, heven⟩ := h template htemplate cx rfl hrun
  exact heven e.text rfl

namespace RunState.Ran

variable (hran : Ran units log calls) (hunit : units[place]? = some (some u))
  (hu : u.root = .root t) (hquotes : u.QuotesPairs)

include hran hunit hu hquotes

/-- **What one match makes** is a wrap of a statement without a block, or texts with their braces in
pairs. -/
theorem isPaired_edits {phase : Phase} {vs : List Visit} (hev : ev ∈ log) (hplace : ev.place = place)
    (hp : p.InCatalog) (hvs : p.visits u phase = .ok vs) (hv : ev.visit ∈ vs) :
    IsPaired (fun c => Unblocked t Controls c ∧ p.canonicalizesBraces = true) ev.edits := by
  obtain ⟨config, kind, rfl⟩ := hp
  by_cases hkind : kind = .braces
  · subst hkind
    obtain ⟨rfl, c, hc⟩ := Braces.exists_node?_of_mem_visits hvs hv
    obtain ⟨cx, numbering, numbering', hmade⟩ := hran.exists_run hev
    rw [Braces.edits_eq_of_run (Pass.mem_visits hvs hv).1 hc hmade]
    exact .of_wrap ⟨(Braces.wraps_iff hu hvs).mp ⟨ev.visit, hv, hc⟩, rfl⟩
  · refine .of_even fun e he => ?_
    obtain ⟨s, s', hsteps, rfl⟩ := hran.steps
    obtain ⟨v, x, accepted, draws, hcall, hmakes, -⟩ := hsteps.exists_makes hran.listed hev he
    obtain rfl := Option.some.inj (Option.some.inj ((hplace ▸ hunit).symm.trans hcall.unit))
    have hname : ev.visit.rule.name ∉ PassKind.ruleNames .braces := fun hname =>
      hkind (PassKind.eq_of_mem_ruleNames
        (Pass.name_mem_ruleNames (Pass.mem_visits hvs hv).1) hname)
    exact (hcall.listed.keepsPairs hname hcall.root hcall.offers hcall.filters
      hquotes).isBalanced hmakes

/-- **What a run makes of a file**, as long as the file quotes braces in pairs: wraps of statements
without a block, if one of the passes makes them blocks, and texts with their braces in pairs. -/
theorem isPaired (hpasses : ∀ p ∈ passes, p.InCatalog)
    (hcalls : ∀ call ∈ calls, call ∈ schedule passes units) :
    IsPaired (fun c => Unblocked t Controls c ∧ ∃ p ∈ passes, p.canonicalizesBraces = true)
      (editsFor place log) := by
  refine .flatMap fun ev hev => ?_
  obtain ⟨hev, hplace⟩ := List.mem_filter.mp hev
  have hplace := beq_iff_eq.mp hplace
  have hcall : (ev.place, ev.visit) ∈ schedule passes units :=
    hcalls _ (hran.calls ▸ List.mem_map_of_mem hev)
  obtain ⟨p, hp, phase, v, vs, hv, hvs, hvisit⟩ := mem_schedule hcall
  obtain rfl := Option.some.inj (Option.some.inj ((hplace ▸ hunit).symm.trans hv))
  exact (hran.isPaired_edits hunit hu hquotes hev hplace (hpasses p hp) hvs hvisit).mono
    fun c hc => ⟨hc.1, p, hp, hc.2⟩

/-- **A closing brace that is cut off** makes a window fall, if it cuts off no opening one. -/
theorem riseOf_lt (hpasses : ∀ p ∈ passes, p.InCatalog)
    (hcalls : ∀ call ∈ calls, call ∈ schedule passes units)
    (hw : ∀ c, Unblocked t Controls c → w c.start = true → w c.stop = true) (hev : ev ∈ log)
    (hplace : ev.place = place) (hedits : ev.edits = Braces.edits c) (hstart : w c.start = false)
    (hstop : w c.stop = true) : riseOf ((editsFor place log).filter (w ·.offset)) < 0 := by
  obtain ⟨front, back, rfl⟩ := List.append_of_mem hev
  obtain ⟨hfront, hrest⟩ := hran.cut
  have hback := (show Ran units ([ev] ++ back) _ from hrest).cut.2
  have hpart {l : List Event} (hl : Ran units l (l.map Event.call))
      (hmem : ∀ d ∈ l, d ∈ front ++ ev :: back) :
      riseOf ((editsFor place l).filter (w ·.offset)) ≤ 0 := by
    refine (hl.isPaired hunit hu hquotes hpasses fun call hcall => ?_).riseOf_le
      fun c hc => hw c hc.1
    obtain ⟨d, hd, rfl⟩ := List.mem_map.mp hcall
    exact hcalls _ (hran.calls ▸ List.mem_map_of_mem (hmem d hd))
  have hbefore := hpart hfront fun d hd => List.mem_append_left _ hd
  have hbehind := hpart hback fun d hd => List.mem_append_right _ (List.mem_cons_of_mem ev hd)
  subst hplace
  rw [List.append_cons, editsFor_append, editsFor_append, editsFor_singleton, hedits,
    List.filter_append, List.filter_append, riseOf_append, riseOf_append, riseOf_filter_wrap, hstart,
    hstop]
  simp only [Bool.false_eq_true, if_false, if_true]
  omega

end RunState.Ran

/-- **A stretch of a run of passes**, with every statement that they make a block made one in it. -/
structure RunState.IsStretchOf (units : List (Option SourceUnit)) (place : Nat) (t : Tree)
    (passes : List Pass) (log : List Event) : Prop where
  catalog : ∀ p ∈ passes, p.InCatalog
  ran : Ran units log (log.map Event.call)
  calls : ∀ ev ∈ log, ev.call ∈ schedule passes units
  wraps : (∃ p ∈ passes, p.canonicalizesBraces = true) → ∀ c, Unblocked t Controls c →
    ∃ ev ∈ log, ev.place = place ∧ ev.edits = Braces.edits c

/-- **A run of catalog passes** makes every statement a block, if one of the passes does. -/
theorem RunState.Ran.exists_wrap (hran : Ran units log (schedule passes units))
    (hunit : units[place]? = some (some u)) (hu : u.root = .root t)
    (hpasses : ∀ p ∈ passes, p.InCatalog) (h : ∃ p ∈ passes, p.canonicalizesBraces = true)
    (hc : Unblocked t Controls c) : ∃ ev ∈ log, ev.place = place ∧ ev.edits = Braces.edits c := by
  obtain ⟨p, hp, hcanonicalizes⟩ := h
  obtain rfl := (hpasses p hp).eq_braces hcanonicalizes
  exact Braces.exists_event_of_ran hran
    (fun call hcall => List.mem_flatMap.mpr ⟨_, hp, List.mem_append_left _ hcall⟩) hunit hu hc

namespace RunState.IsStretchOf

theorem of_ran (hran : Ran units log (schedule passes units)) (hunit : units[place]? = some (some u))
    (hu : u.root = .root t) (hpasses : ∀ p ∈ passes, p.InCatalog) :
    IsStretchOf units place t passes log where
  catalog := hpasses
  ran := hran.calls.symm ▸ hran
  calls _ hev := hran.calls ▸ List.mem_map_of_mem hev
  wraps hcanonicalizes _ hc := hran.exists_wrap hunit hu hpasses hcanonicalizes hc

/-- What a pass makes before and after one event, if it makes no statement a block. -/
theorem of_cut {front back : List Event} (hran : Ran units (front ++ ev :: back) (schedule [p] units))
    (hp : p.InCatalog) (hplain : p.canonicalizesBraces = false) :
    IsStretchOf units place t [p] front ∧ IsStretchOf units place t [p] back := by
  have hcalls (d : Event) (hd : d ∈ front ++ ev :: back) : d.call ∈ schedule [p] units :=
    hran.calls ▸ List.mem_map_of_mem hd
  have hnone : ¬ ∃ q ∈ [p], q.canonicalizesBraces = true := by
    simp only [List.mem_singleton, exists_eq_left, hplain, Bool.false_eq_true, not_false_eq_true]
  obtain ⟨hfront, hrest⟩ := hran.cut
  have hback := (show Ran units ([ev] ++ back) _ from hrest).cut.2
  exact ⟨⟨List.forall_mem_singleton.mpr hp, hfront,
      fun d hd => hcalls d (List.mem_append_left _ hd), fun h => absurd h hnone⟩,
    ⟨List.forall_mem_singleton.mpr hp, hback,
      fun d hd => hcalls d (List.mem_append_right _ (List.mem_cons_of_mem ev hd)),
      fun h => absurd h hnone⟩⟩

/-- Stretches that follow one another. -/
theorem append {log' : List Event} {more : List Pass} (h : IsStretchOf units place t passes log)
    (h' : IsStretchOf units place t more log') (hran : Ran units (log ++ log') calls) :
    IsStretchOf units place t (passes ++ more) (log ++ log') where
  catalog := List.forall_mem_append.mpr ⟨h.catalog, h'.catalog⟩
  ran := hran.calls.symm ▸ hran
  calls := List.forall_mem_append.mpr ⟨fun ev hev => by
      rw [schedule_append]
      exact List.mem_append_left _ (h.calls ev hev), fun ev hev => by
      rw [schedule_append]
      exact List.mem_append_right _ (h'.calls ev hev)⟩
  wraps := by
    rintro ⟨p, hp, hcanonicalizes⟩ c hc
    rcases List.mem_append.mp hp with hp | hp
    · obtain ⟨ev, hev, hwraps⟩ := h.wraps ⟨p, hp, hcanonicalizes⟩ c hc
      exact ⟨ev, List.mem_append_left _ hev, hwraps⟩
    · obtain ⟨ev, hev, hwraps⟩ := h'.wraps ⟨p, hp, hcanonicalizes⟩ c hc
      exact ⟨ev, List.mem_append_right _ hev, hwraps⟩

variable {z : Nat} (h : IsStretchOf units place t passes log) (hunit : units[place]? = some (some u))
  (hu : u.root = .root t) (hquotes : u.QuotesPairs)

include h hunit hu hquotes

theorem isPaired : IsPaired (fun c => Unblocked t Controls c ∧
    ∃ p ∈ passes, p.canonicalizesBraces = true) (editsFor place log) :=
  h.ran.isPaired hunit hu hquotes h.catalog (List.forall_mem_map.mpr h.calls)

/-- **A window that cuts off the statements that end at an offset**, and no others, behind their
opening braces: it is even exactly if the passes make none of them a block, and falls otherwise. -/
theorem riseOf_window (hspan : ∀ c, Unblocked t Controls c → c.start < c.stop)
    (hw : ∀ c, Unblocked t Controls c → c.stop ≠ z → w c.start = w c.stop)
    (hz : ∀ c, Unblocked t Controls c → c.stop = z → w c.start = false ∧ w c.stop = true) :
    riseOf ((editsFor place log).filter (w ·.offset)) ≤ 0 ∧
      (riseOf ((editsFor place log).filter (w ·.offset)) = 0 ↔
        ((∃ p ∈ passes, p.canonicalizesBraces = true) →
          ∀ c, Unblocked t Controls c → c.stop ≠ z)) ∧
      (riseOf ((editsFor place log).filter (w ·.offset)) = 0 →
        ∀ o, 0 ≤ lowAt ((editsFor place log).filter (w ·.offset)) o) := by
  have hpaired := h.isPaired hunit hu hquotes
  have hkeeps (c : Node) (hc : Unblocked t Controls c) (hstart : w c.start = true) :
      w c.stop = true := by
    by_cases heq : c.stop = z
    · exact (hz c hc heq).2
    · exact hw c hc heq ▸ hstart
  have heven (hnone : (∃ p ∈ passes, p.canonicalizesBraces = true) →
      ∀ c, Unblocked t Controls c → c.stop ≠ z) :=
    hpaired.even_filter (w := w) (fun c hc => hspan c hc.1) fun c hc =>
      hw c hc.1 (hnone hc.2 c hc.1)
  have hiff : riseOf ((editsFor place log).filter (w ·.offset)) = 0 ↔
      ((∃ p ∈ passes, p.canonicalizesBraces = true) →
        ∀ c, Unblocked t Controls c → c.stop ≠ z) := by
    refine ⟨fun hzero hcanonicalizes c hc heq => ?_, fun hnone => (heven hnone).1⟩
    obtain ⟨ev, hev, hplace, hedits⟩ := h.wraps hcanonicalizes c hc
    obtain ⟨hstart, hstop⟩ := hz c hc heq
    have := h.ran.riseOf_lt hunit hu hquotes h.catalog (List.forall_mem_map.mpr h.calls) hkeeps hev
      hplace hedits hstart hstop
    omega
  exact ⟨hpaired.riseOf_le fun c hc => hkeeps c hc.1, hiff,
    fun hzero => (heven (hiff.mp hzero)).2⟩

end RunState.IsStretchOf

end ProbeWeaver
