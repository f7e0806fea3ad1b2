import Mathlib.Algebra.Group.Nat.Defs
import Mathlib.Data.List.Flatten
import ProbeWeaver.Proofs.Passes.HookLines
import ProbeWeaver.Proofs.Passes.HookTargets
import ProbeWeaver.Proofs.Run.Headings

/-!
# Proofs/Run/HookNumbers — each hook is closed once and defined once, in its own file

In a run with one mutate pass each file comes once to the lines that define its hooks, after
everything that draws numbers of hooks (`exists_log_eq`).  What the edits of a run close are the
numbers that it handed out, in order (`RunState.Steps.closersIn_eq`); the lines of a file define what
the edits of the file close.

* `Pipeline.exists_defines_of_perform` — the hooks of all files of a run;
* `Pipeline.exists_forged_hook` — a hook that an operand spells once its plus signs are erased.
-/

namespace ProbeWeaver

open Text

variable {t : Tree} {u : SourceUnit} {r : Rule} {m : Match} {cx : EditContext} {edit : Edit}
  {draws : List Draw} {place : Nat} {c : Category} {text : String} {h : Hooks.Hook}

/-! ## Edits of a match -/

theorem Draw.mem_numbersOf {n : Nat} : n ∈ numbersOf c draws ↔ ⟨c, n⟩ ∈ draws := by
  rw [numbersOf, List.mem_map]
  constructor
  · rintro ⟨x, hx, rfl⟩
    obtain ⟨hx, hcategory⟩ := List.mem_filter.mp hx
    rwa [← of_decide_eq_true hcategory]
  · exact fun hn => ⟨_, List.mem_filter.mpr ⟨hn, decide_eq_true rfl⟩, rfl⟩

theorem Draw.numbersOf_flatten (c : Category) (dss : List (List Draw)) :
    numbersOf c dss.flatten = dss.flatMap (numbersOf c) := by
  induction dss with
  | nil => rfl
  | cons ds dss ih => rw [List.flatten_cons, numbersOf_append, ih, List.flatMap_cons]

namespace Rule

/-- **The text of an edit closes** the hooks whose numbers were drawn for it. -/
theorem Produces.closersIn_eq (hmade : r.Produces u text draws) (hu : u.IsUnhooked)
    (hh : h ∈ Hooks.all) : Hooks.closersIn h text = Draw.numbersOf h.category draws := by
  cases hmade with
  | inserted _ form => exact (form.closes hu).2 h hh
  | heading _ form =>
    have hflags : ∀ h ∈ Hooks.all, ∀ c ∈ Tracing.flagCategories,
        Hooks.closerStem h ≠ Probe.flagStem c := by
      decide
    have hquiet := form.quiet (closerStem_mem hh) (fun _ => hflags h hh) fun _ =>
      closerStem_ne_defineStem hh
    rw [Hooks.closersIn, numbersIn, hquiet.rests_eq_nil]
    rfl

/-- But for definitions, it defines none. -/
theorem Produces.closing (hmade : r.Produces u text draws)
    (hr : r.HeadsNot Hooks.definitionRule.name) (hu : u.IsUnhooked) : Hooks.Closing text := by
  cases hmade with
  | inserted _ form => exact (form.closes hu).1
  | heading phase form =>
    refine (form.closes (hr.resolve_left fun htraversal => ?_)).1
    rw [phase] at htraversal
    contradiction

/-- **No number of a hook goes to the start** of a file. -/
theorem Makes.closersIn_eq_nil (hmade : r.Makes cx m edit draws) (hlisted : r.Listed)
    (hu : cx.unit.root = .root t) (hunhooked : cx.unit.IsUnhooked)
    (hoperands : ∀ n ∈ cx.unit.root.walk, n.isOperand = true → n.stop ≠ 0)
    (hm : r.Offers cx.unit m) (hstart : edit.offset = 0) (hh : h ∈ Hooks.all) :
    Hooks.closersIn h edit.text = [] := by
  obtain ⟨e, he, hrange, hproduces, numbering, numbering', hrun, hands⟩ := hmade
  rw [hproduces.closersIn_eq hunhooked hh]
  rcases hlisted.closesOperands e he with hspares | ⟨name, hanchor, hoperand⟩
  · refine List.eq_nil_iff_forall_not_mem.mpr fun n hn => ?_
    exact (hspares cx m).not_mem hrun hands (Hooks.not_mem_unhooked hh) (Draw.mem_numbersOf.mp hn)
  · rw [hanchor] at hrange
    obtain ⟨n, hn, hrange⟩ := bind_eq_ok_iff.mp hrange
    obtain ⟨hoffset, -⟩ := Prod.mk.inj (Except.ok.inj hrange)
    have hn := node?_of_node hn
    have hwithin := (hlisted.insertive.of_offers hu hm).1
    refine absurd (hoffset.trans hstart) (hoperands n ?_ (hoperand hu hm hn))
    rw [hu]
    exact (hwithin.node? hn).mem_walk

end Rule

/-- **The file's hooks can be told apart**: one file, whose quotes hold no name of a hook and whose
operands do not end at its start. -/
structure SourceUnit.TakesHooks (u : SourceUnit) : Prop where
  file : u.IsOneFile
  kind : u.root.kind = .sourceUnit
  unhooked : u.IsUnhooked
  operands : ∀ n ∈ u.root.walk, n.isOperand = true → n.stop ≠ 0

/-- The hooks that the text inserted into a file closes. -/
def FileSlot.closersIn (h : Hooks.Hook) : FileSlot → List Nat
  | .parsed file => Hooks.closersIn h file.edits.inserted
  | .abandoned .. => []

namespace RunState

variable {s s' : RunState} {ev : Event} {log pre post : List Event}

/-- **What the edits of a run close** are the numbers that it handed out, in order. -/
theorem Steps.closersIn_eq (hsteps : Steps s log s')
    (hcalls : ∀ ev ∈ log, ∃ u t, IsListedCall s.units ev.call u t)
    (hunits : ∀ u, some u ∈ s.units → u.IsUnhooked) (hh : h ∈ Hooks.all) :
    ((log.flatMap (·.edits)).flatMap fun edit => Hooks.closersIn h edit.text) =
      List.range' (s.numbering.count h.category)
        (s'.numbering.count h.category - s.numbering.count h.category) := by
  obtain ⟨dss, hands, hmade⟩ := hsteps.exists_draws hcalls
  have hedits : log.flatMap (·.edits) = (log.flatMap Event.made).map Prod.snd := by
    rw [List.map_flatMap]
    refine congrArg log.flatMap (funext fun ev => ?_)
    rw [Event.made, List.map_map]
    exact (List.map_id _).symm
  rw [← hands.numbersOf_eq, Draw.numbersOf_flatten, hedits, List.flatMap_map, List.flatMap_def,
    List.flatMap_def]
  congr 1
  refine List.forall₂_eq_eq_eq ▸ List.forall₂_map_left_iff.mpr (List.forall₂_map_right_iff.mpr ?_)
  refine hmade.imp fun made ds hmade => ?_
  obtain ⟨u, t, accepted, hcall, e, -, -, hproduces, -⟩ := hmade
  exact hproduces.closersIn_eq (hunits u (List.mem_of_getElem? hcall.unit)) hh

/-- No hook of a file is closed twice. -/
theorem Steps.nodup_closersIn (hsteps : Steps s log s')
    (hcalls : ∀ ev ∈ log, ∃ u t, IsListedCall s.units ev.call u t)
    (hunits : ∀ u, some u ∈ s.units → u.IsUnhooked) (hh : h ∈ Hooks.all) :
    ((editsFor place log).flatMap fun edit => Hooks.closersIn h edit.text).Nodup := by
  have hall : ((log.flatMap (·.edits)).flatMap fun edit => Hooks.closersIn h edit.text).Nodup := by
    rw [hsteps.closersIn_eq hcalls hunits hh]
    exact List.nodup_range'
  exact hall.sublist ((List.filter_sublist.flatMap _).flatMap _)

/-- **The edits for a file close hooks** away from its start and define none. -/
theorem Steps.closesBehind_of_mem_editsFor (hsteps : Steps s log s')
    (hcalls : ∀ ev ∈ log, ∃ u t, IsListedCall s.units ev.call u t)
    (hunit : s.units[place]? = some (some u)) (hu : u.TakesHooks)
    (hlines : ∀ ev ∈ log, ev.place = place → ev.visit.rule.HeadsNot Hooks.definitionRule.name)
    (hedit : edit ∈ editsFor place log) :
    Hooks.ClosesBehind edit ∧ ∀ h ∈ Hooks.all, ∀ n ∈ Hooks.closersIn h edit.text,
      n < s'.numbering.count h.category := by
  obtain ⟨ev, hev, rfl, hmade⟩ := exists_event_of_mem_editsFor hedit
  obtain ⟨v, t, accepted, draws, hcall, hmakes, hbelow⟩ := hsteps.exists_makes hcalls hev hmade
  obtain rfl := Option.some.inj (Option.some.inj (hcall.unit.symm.trans hunit))
  have hproduces : ev.visit.rule.Produces v edit.text draws := Rule.Makes.produces hmakes
  refine ⟨⟨hproduces.closing (hlines ev hev rfl) hu.unhooked, fun hstart h hh => ?_⟩,
    fun h hh n hn => ?_⟩
  · exact Rule.Makes.closersIn_eq_nil hmakes hcall.listed hcall.root hu.unhooked hu.operands
      hcall.offers hstart hh
  · rw [hproduces.closersIn_eq hu.unhooked hh] at hn
    exact hbelow _ (Draw.mem_numbersOf.mp hn)

/-- An edit of a rule that draws no number of a hook closes none. -/
theorem Steps.closersIn_eq_nil (hsteps : Steps s log s')
    (hcalls : ∀ ev ∈ log, ∃ u t, IsListedCall s.units ev.call u t)
    (hunits : ∀ u, some u ∈ s.units → u.IsUnhooked) (hev : ev ∈ log)
    (hspares : ev.visit.rule.DrawsOf Hooks.unhooked) (hedit : edit ∈ ev.edits)
    (hh : h ∈ Hooks.all) : Hooks.closersIn h edit.text = [] := by
  obtain ⟨u, t, accepted, draws, hcall, hmakes, -⟩ := hsteps.exists_makes hcalls hev hedit
  have hproduces : ev.visit.rule.Produces u edit.text draws := Rule.Makes.produces hmakes
  rw [hproduces.closersIn_eq (hunits u (List.mem_of_getElem? hcall.unit)) hh]
  exact List.eq_nil_iff_forall_not_mem.mpr fun n hn => Rule.Makes.not_mem_of_drawsOf hmakes hspares
    (Hooks.not_mem_unhooked hh) (Draw.mem_numbersOf.mp hn)

/-- **The hooks of a file** are closed behind the lines that define them. -/
theorem Steps.exists_defines {files : List SourceFile} {file : ParsedFile} {m : Match} {index : Nat}
    (hsteps : Steps ⟨files.map (·.slot), {}⟩ (pre ++ ev :: post) s')
    (hcalls : ∀ e ∈ pre ++ ev :: post, ∃ u t, IsListedCall (files.map (·.unit?)) e.call u t)
    (hunits : ∀ u, some u ∈ files.map (·.unit?) → u.TakesHooks)
    (hev : ev.call = (place, ⟨Hooks.definitionRule, index, m⟩))
    (hlines : ∀ e ∈ pre ++ post, e.place = place →
      e.visit.rule.HeadsNot Hooks.definitionRule.name)
    (hspares : ∀ e ∈ post, e.visit.rule.DrawsOf Hooks.unhooked)
    (hsmall : ∀ h ∈ Hooks.all, s'.numbering.count h.category ≤ 2 ^ 32)
    (hslot : s'.slots[place]? = some (.parsed file)) :
    ∃ front back, file.edits.inserted = front ++ back ∧ Hooks.Defines front back ∧
      ∀ h ∈ Hooks.all, (Hooks.closersIn h back).Perm
        ((editsFor place (pre ++ ev :: post)).flatMap fun edit => Hooks.closersIn h edit.text) := by
  obtain ⟨place', v, edits⟩ := ev
  obtain ⟨rfl, rfl⟩ := Prod.mk.inj hev
  have hstart := units_start files
  obtain ⟨hunit, -⟩ := hsteps.holds_of_start hcalls hslot
  have hu := hunits file.unit (List.mem_of_getElem? hunit)
  obtain ⟨s₁, s₂, accepted, hpre, hpost, hunits₂, haccepted, hmade, hfile⟩ :=
    hsteps.exists_cut hcalls hslot
  have hcallsPre : ∀ e ∈ pre, ∃ u t, IsListedCall (files.map (·.unit?)) e.call u t :=
    fun e he => hcalls e (List.mem_append_left _ he)
  have hcallsPost : ∀ e ∈ post, ∃ u t, IsListedCall s₂.units e.call u t := fun e he =>
    hunits₂ ▸ hcalls e (List.mem_append_right _ (List.mem_cons_of_mem _ he))
  obtain ⟨lines, hrun, hmid, hlinesAt⟩ :=
    Hooks.exists_editsOf_definitionRule ⟨file.unit, accepted⟩ m s₁.numbering
  obtain ⟨rfl, hnumbering⟩ := Prod.mk.inj (Except.ok.inj (hmade.symm.trans hrun))
  have hbehind : ∀ e ∈ editsFor place' pre, Hooks.ClosesBehind e ∧
      ∀ h ∈ Hooks.all, ∀ n ∈ Hooks.closersIn h e.text, n < s₁.numbering.count h.category :=
    fun e he => hpre.closesBehind_of_mem_editsFor (hstart ▸ hcallsPre) (hstart ▸ hunit) hu
      (fun e he => hlines e (List.mem_append_left _ he)) he
  have hnone : ∀ e ∈ edits ++ editsFor place' post, ∀ h ∈ Hooks.all,
      Hooks.closersIn h e.text = [] := by
    intro e he h hh
    have hnone {ev : Event} (hev : ev ∈ pre ++ ⟨place', ⟨Hooks.definitionRule, index, m⟩, edits⟩ :: post)
        (hspares : ev.visit.rule.DrawsOf Hooks.unhooked) (he : e ∈ ev.edits) :
        Hooks.closersIn h e.text = [] :=
      hsteps.closersIn_eq_nil (hstart ▸ hcalls) (fun u hu => (hunits u (hstart ▸ hu)).unhooked) hev
        hspares he hh
    rcases List.mem_append.mp he with he | he
    · exact hnone (List.mem_append_right _ List.mem_cons_self)
        ((Rule.drawsOf_of_single rfl Hooks.drawsOf_definitions).mono nofun) he
    · obtain ⟨ev, hev, -, he⟩ := exists_event_of_mem_editsFor he
      exact hnone (List.mem_append_right _ (List.mem_cons_of_mem _ hev)) (hspares ev hev) he
  have honce : ∀ h ∈ Hooks.all,
      ((editsFor place' pre).flatMap fun e => Hooks.closersIn h e.text).Nodup := fun h hh =>
    hpre.nodup_closersIn (hstart ▸ hcallsPre) (fun u hu => (hunits u (hstart ▸ hu)).unhooked) hh
  have hsame : ∀ h ∈ Hooks.all, (Hooks.linesOf h (Hooks.defined accepted Hooks.all)).Perm
      ((editsFor place' pre).flatMap fun e => Hooks.closersIn h e.text) := fun h hh => by
    refine Hooks.perm_linesOf_defined haccepted (fun e he => (hbehind e he).1.closing) hh
      (fun e he n hn => ?_) (honce h hh)
    have hcount : s₁.numbering.count h.category = s'.numbering.count h.category := by
      rw [hpost.count_eq hcallsPost hspares (Hooks.not_mem_unhooked hh), hnumbering]
    exact Nat.lt_of_lt_of_le (hcount ▸ (hbehind e he).2 h hh n hn) (hsmall h hh)
  obtain ⟨front, back, hinserted, hdefines, hperm⟩ := Hooks.exists_defines hfile
    (fun e he => (hbehind e he).1) hmid hlinesAt (fun _ => Hooks.mem_of_mem_defined) honce hsame
    fun e he => ⟨(hpost.closesBehind_of_mem_editsFor hcallsPost (hunits₂ ▸ hunit) hu
      (fun e he => hlines e (List.mem_append_right _ he)) he).1,
        hnone e (List.mem_append_right _ he)⟩
  refine ⟨front, back, hinserted, hdefines, fun h hh => ?_⟩
  have hedits : editsFor place' (pre ++ ⟨place', ⟨Hooks.definitionRule, index, m⟩, edits⟩ :: post) =
      editsFor place' pre ++ (edits ++ editsFor place' post) := by
    rw [List.append_cons, editsFor_append, editsFor_append,
      editsFor_singleton ⟨place', ⟨Hooks.definitionRule, index, m⟩, edits⟩, List.append_assoc]
  rw [hedits, List.flatMap_append, List.flatMap_eq_nil_iff.mpr fun e he => hnone e he h hh,
    List.append_nil]
  exact hperm h hh

/-! ## All files together -/

/-- What lists are put together from, one part for each element. -/
theorem perm_flatMap_range {α β : Type} {f : α → List β} : ∀ {l : List α} {g : Nat → List β},
    (∀ i a, l[i]? = some a → (f a).Perm (g i)) →
      (l.flatMap f).Perm ((List.range l.length).flatMap g)
  | [], _, _ => .nil
  | a :: l, g, hparts => by
      rw [List.length_cons, List.range_succ_eq_map, List.flatMap_cons, List.flatMap_cons,
        List.flatMap_map]
      exact (hparts 0 a rfl).append (perm_flatMap_range fun i b hb => hparts (i + 1) b hb)

/-- **The files of a run** close together what its edits close. -/
theorem Steps.perm_closersIn {slots : List FileSlot} {numbering : Numbering}
    (hsteps : Steps s log ⟨slots, numbering⟩)
    (hcalls : ∀ ev ∈ log, ∃ u t, IsListedCall s.units ev.call u t)
    (hfiles : ∀ place file, slots[place]? = some (.parsed file) →
      (Hooks.closersIn h file.edits.inserted).Perm
        ((editsFor place log).flatMap fun edit => Hooks.closersIn h edit.text)) :
    (slots.flatMap (·.closersIn h)).Perm
      ((log.flatMap (·.edits)).flatMap fun edit => Hooks.closersIn h edit.text) := by
  have hunits : s.units = slots.map FileSlot.unit? := hsteps.units_eq.symm
  have hplaces : ∀ ev ∈ log, ∃ file, slots[ev.place]? = some (.parsed file) := by
    intro ev hev
    obtain ⟨u, t, hcall⟩ := hcalls ev hev
    have hunit := hcall.unit
    rw [hunits, List.getElem?_map] at hunit
    obtain ⟨slot, hslot, hunit⟩ := Option.map_eq_some_iff.mp hunit
    cases slot with
    | parsed file => exact ⟨file, hslot⟩
    | abandoned path source cause => exact nomatch hunit
  have hparts : (slots.flatMap (·.closersIn h)).Perm ((List.range slots.length).flatMap fun place =>
      (editsFor place log).flatMap fun edit => Hooks.closersIn h edit.text) := by
    refine perm_flatMap_range fun place slot hslot => ?_
    cases slot with
    | parsed file => exact hfiles place file hslot
    | abandoned path source cause =>
      rw [editsFor_of_forall_ne]
      · exact .nil
      · rintro ev hev rfl
        obtain ⟨file, hfile⟩ := hplaces ev hev
        exact nomatch hslot.symm.trans hfile
  have hlog : ((List.range slots.length).flatMap fun place => log.filter (·.place == place)).Perm
      log := by
    refine perm_flatMap_filter Event.place List.nodup_range fun ev hev => ?_
    obtain ⟨file, hfile⟩ := hplaces ev hev
    exact List.mem_range.mpr (List.getElem?_eq_some_iff.mp hfile).1
  have hedits : ((List.range slots.length).flatMap (editsFor · log)).Perm
      (log.flatMap (·.edits)) := by
    have hedits := hlog.flatMap_right (·.edits)
    rwa [List.flatMap_assoc] at hedits
  rw [← List.flatMap_assoc] at hparts
  exact hparts.trans (hedits.flatMap_right _)

end RunState

/-! ## Runs -/

namespace Pipeline

open RunState

/-- **The hooks of a run.**  Whatever the configuration, as long as it lists the mutate pass once,
and whatever the files, as long as the parser's spans fit the texts and each file takes hooks: the
run succeeds; if the numbers fit into words, the text inserted into a file defines, in front of all
closers, the hooks that it closes, each once; and the hooks that all files close are numbered from
nothing up to the count that the run reports, each in one file. -/
theorem exists_defines_of_perform (config : RunSettings)
    (hmutate : config.passes.count .mutate = 1) (validateOutput dryRun : Bool)
    (files : List SourceFile) (hfiles : ∀ file ∈ files, file.SpansFit)
    (hunits : ∀ file ∈ files, ∀ u, file.unit? = some u → u.TakesHooks) :
    ∃ summary, ((build config.selectedPasses validateOutput dryRun).perform files).1 = .ok summary ∧
      ∃ log slots, Steps ⟨files.map (·.slot), {}⟩ log ⟨slots, summary.numbering⟩ ∧
        log.map Event.call = schedule (build config.selectedPasses validateOutput dryRun).passes
          (files.map (·.unit?)) ∧
          FileSlot.finishAll validateOutput slots = .ok summary.files ∧
            ((∀ h ∈ Hooks.all, summary.numbering.count h.category ≤ 2 ^ 32) →
              (∀ file, .parsed file ∈ slots → ∃ front back,
                file.edits.inserted = front ++ back ∧ Hooks.Defines front back) ∧
              ∀ h ∈ Hooks.all, (slots.flatMap (·.closersIn h)).Perm
                (List.range (summary.numbering.count h.category))) := by
  have hpasses := insertive_build config validateOutput dryRun
  obtain ⟨summary, hrun, -, -⟩ := exists_perform config validateOutput dryRun files hfiles
  obtain ⟨log, slots, hsteps, hlog, hfinish⟩ := exists_steps_of_perform hpasses hrun
  refine ⟨summary, hrun, log, slots, hsteps, hlog, hfinish, fun hsmall => ?_⟩
  have hstart := units_start files
  have hcalls : ∀ ev ∈ log, ∃ u t, IsListedCall (files.map (·.unit?)) ev.call u t := fun ev hev =>
    exists_isListedCall (fun p hp => exists_ofKind_of_mem_build hp) (isRooted_units files)
      (hlog ▸ List.mem_map_of_mem hev)
  have hunits' : ∀ u, some u ∈ files.map (·.unit?) → u.TakesHooks := fun u hu => by
    obtain ⟨origin, horigin, hunit⟩ := List.mem_map.mp hu
    exact hunits origin horigin u hunit
  have hfile : ∀ place file, slots[place]? = some (.parsed file) → ∃ front back,
      file.edits.inserted = front ++ back ∧ Hooks.Defines front back ∧
        ∀ h ∈ Hooks.all, (Hooks.closersIn h back).Perm
          ((editsFor place log).flatMap fun edit => Hooks.closersIn h edit.text) := by
    intro place file hslot
    obtain ⟨hunit, -⟩ := hsteps.holds_of_start hcalls hslot
    have hu := hunits' file.unit (List.mem_of_getElem? hunit)
    obtain ⟨pre, ev, post, index, m, rfl, hev, hlines, hspares⟩ := exists_log_eq .mutate rfl hmutate
      hlog hunit hu.file hu.kind
    exact hsteps.exists_defines hcalls hunits' hev hlines
      (fun e he => (hspares e he).mono (by decide)) hsmall hslot
  refine ⟨fun file hmem => ?_, fun h hh => ?_⟩
  · obtain ⟨place, hslot⟩ := List.mem_iff_getElem?.mp hmem
    obtain ⟨front, back, hinserted, hdefines, -⟩ := hfile place file hslot
    exact ⟨front, back, hinserted, hdefines⟩
  · have hperm := hsteps.perm_closersIn (h := h) (hstart ▸ hcalls) fun place file hslot => by
      obtain ⟨front, back, hinserted, hdefines, hback⟩ := hfile place file hslot
      rw [hinserted, hdefines.closers h hh]
      exact hback h hh
    rw [hsteps.closersIn_eq (hstart ▸ hcalls) (fun u hu => (hunits' u (hstart ▸ hu)).unhooked) hh]
      at hperm
    have hzero : ({} : Numbering).count h.category = 0 := by
      cases h.category <;> rfl
    rwa [hzero, Nat.sub_zero, ← List.range_eq_range'] at hperm

/-- A function that adds its parameters. -/
def sumFile : SourceFile where
  path := "t.c"
  text := .ok "void f(int a, int b) \x7b a + b; \x7d\n"
  parse _ :=
    .node .sourceUnit none ⟨0, 31⟩ false
      [.node .functionDefinition none ⟨0, 30⟩ false
         [.node (.other "primitive_type") (some .type) ⟨0, 4⟩ false [],
          .node .functionDeclarator (some .declarator) ⟨5, 20⟩ false
            [.node .identifier (some .declarator) ⟨5, 6⟩ false [],
             .node (.other "parameter_list") (some .parameters) ⟨6, 20⟩ false
               [.node (.token "(") none ⟨6, 7⟩ false [],
                .node .parameterDeclaration none ⟨7, 12⟩ false
                  [.node (.other "primitive_type") (some .type) ⟨7, 10⟩ false [],
                   .node .identifier (some .declarator) ⟨11, 12⟩ false []],
                .node (.token ",") none ⟨12, 13⟩ false [],
                .node .parameterDeclaration none ⟨14, 19⟩ false
                  [.node (.other "primitive_type") (some .type) ⟨14, 17⟩ false [],
                   .node .identifier (some .declarator) ⟨18, 19⟩ false []],
                .node (.token ")") none ⟨19, 20⟩ false []]],
          .node .compoundStatement (some .body) ⟨21, 30⟩ false
            [.node (.token "\x7b") none ⟨21, 22⟩ false [],
             .node .expressionStatement none ⟨23, 29⟩ false
               [.node .binaryExpression none ⟨23, 28⟩ false
                  [.node .identifier (some .left) ⟨23, 24⟩ false [],
                   .node (.token "+") (some .operator) ⟨25, 26⟩ false [],
                   .node .identifier (some .right) ⟨27, 28⟩ false []],
                .node (.token ";") none ⟨28, 29⟩ false []],
             .node (.token "\x7d") none ⟨29, 30⟩ false []]]]

/-- The hooks of the sum, run with everything hooked and with sites and integers reported. -/
theorem exists_defines_of_perform_sum :
    ∃ summary, ((build (RunSettings.selectedPasses
        { passes := [.mutate, .instrument], mode := some .integer, targets := HookTarget.all }) false true).perform
          [sumFile]).1 = .ok summary ∧
      ∃ log slots, Steps ⟨[sumFile.slot], {}⟩ log ⟨slots, summary.numbering⟩ ∧
        log.map Event.call = schedule (build (RunSettings.selectedPasses
          { passes := [.mutate, .instrument], mode := some .integer, targets := HookTarget.all }) false true).passes
            [sumFile.unit?] ∧
          FileSlot.finishAll false slots = .ok summary.files ∧
            ((∀ h ∈ Hooks.all, summary.numbering.count h.category ≤ 2 ^ 32) →
              (∀ file, .parsed file ∈ slots → ∃ front back,
                file.edits.inserted = front ++ back ∧ Hooks.Defines front back) ∧
              ∀ h ∈ Hooks.all, (slots.flatMap (·.closersIn h)).Perm
                (List.range (summary.numbering.count h.category))) := by
  refine exists_defines_of_perform { passes := [.mutate, .instrument], mode := some .integer, targets := HookTarget.all }
    (by decide) false true [sumFile] (fun file hfile text htext => ?_) fun file hfile u hunit => ?_
  · obtain rfl := List.mem_singleton.mp hfile
    obtain rfl := Except.ok.inj htext
    decide
  · obtain rfl := List.mem_singleton.mp hfile
    obtain rfl := Option.some.inj hunit
    exact ⟨by decide +kernel, by decide +kernel, by decide +kernel, by decide +kernel⟩

/-! ## A hook spelled in a comment -/

/-- A function that returns a sum, with a comment that closes a hook but for two plus signs. -/
def closedText : String :=
  "int f(int a, int b) \x7b return (a/*) _MUT++ARR7)*/) + b; \x7d\n"

/-- The tree of the function. -/
def closedTree : Tree :=
  .node .sourceUnit none ⟨0, 57⟩ false
    [.node .functionDefinition none ⟨0, 56⟩ false
       [.node (.other "primitive_type") (some .type) ⟨0, 3⟩ false [],
        .node .functionDeclarator (some .declarator) ⟨4, 19⟩ false
          [.node .identifier (some .declarator) ⟨4, 5⟩ false [],
           .node (.other "parameter_list") (some .parameters) ⟨5, 19⟩ false
             [.node (.token "(") none ⟨5, 6⟩ false [],
              .node .parameterDeclaration none ⟨6, 11⟩ false
                [.node (.other "primitive_type") (some .type) ⟨6, 9⟩ false [],
                 .node .identifier (some .declarator) ⟨10, 11⟩ false []],
              .node (.token ",") none ⟨11, 12⟩ false [],
              .node .parameterDeclaration none ⟨13, 18⟩ false
                [.node (.other "primitive_type") (some .type) ⟨13, 16⟩ false [],
                 .node .identifier (some .declarator) ⟨17, 18⟩ false []],
              .node (.token ")") none ⟨18, 19⟩ false []]],
        .node .compoundStatement (some .body) ⟨20, 56⟩ false
          [.node (.token "\x7b") none ⟨20, 21⟩ false [],
           .node .returnStatement none ⟨22, 54⟩ false
             [.node (.token "return") none ⟨22, 28⟩ false [],
              .node .binaryExpression none ⟨29, 53⟩ false
                [.node .parenthesizedExpression (some .left) ⟨29, 49⟩ false
                   [.node (.token "(") none ⟨29, 30⟩ false [],
                    .node .identifier none ⟨30, 31⟩ false [],
                    .node .comment none ⟨31, 48⟩ false [],
                    .node (.token ")") none ⟨48, 49⟩ false []],
                 .node (.token "+") (some .operator) ⟨50, 51⟩ false [],
                 .node .identifier (some .right) ⟨52, 53⟩ false []],
              .node (.token ";") none ⟨53, 54⟩ false []],
           .node (.token "\x7d") none ⟨55, 56⟩ false []]]]

/-- The function as a file. -/
def closedUnit : SourceUnit :=
  ⟨"t.c", closedText, .root closedTree, NameTable.build closedText (.root closedTree)⟩

/-- What the rule of integers makes of the file: the numbers that its accepted edits seem to close,
hook by hook, and the numbering. -/
theorem run_closed :
    (match Observation.integerRule.matchesIn closedUnit with
      | .ok ms => ms.map fun m =>
        ((Observation.integerRule.editsOf ⟨closedUnit, {}⟩ m).run {}).toOption.map fun made =>
          ((ParsedFile.addAll closedText {} made.1).toOption.map fun set =>
            Hooks.all.map fun h => Hooks.numbersAfter set (Hooks.closerStem h),
            made.2)
      | .error _ => []) =
      [some (some [[7, 7], [], [], []], (Numbering.next {} .int).2)] := by
  decide +kernel

/-- **A hook defined that was never handed out**: the operand of the sum is quoted without the plus
signs of its comment, which makes a closer of it, though the file names no hook. -/
theorem exists_forged_hook :
    SourceUnit.ofTree? "t.c" closedText closedTree = .ok closedUnit ∧
      (∀ h ∈ Hooks.all, contains closedText h.tag = false) ∧ closedUnit.IsOneFile ∧
        ∃ p ∈ (build [integerPass, Hooks.pass [.arrayIndex]] false true).passes,
          ∃ q ∈ (build [integerPass, Hooks.pass [.arrayIndex]] false true).passes,
            ∃ vs v edits numbering accepted ws w lines,
              p.visits closedUnit .traversal = .ok vs ∧ v ∈ vs ∧
                (v.rule.editsOf ⟨closedUnit, {}⟩ v.found).run {} = .ok (edits, numbering) ∧
                ParsedFile.addAll closedText {} edits = .ok accepted ∧
              q.visits closedUnit .late = .ok ws ∧ w ∈ ws ∧
                (w.rule.editsOf ⟨closedUnit, accepted⟩ w.found).run numbering =
                  .ok (lines, numbering) ∧
              (∀ h ∈ Hooks.all, numbering.count h.category = 0) ∧
                7 ∈ Hooks.definesIn Hooks.arrayHook (textAt lines 0) := by
  have hpass : integerPass.Insertive := Pass.insertive_ofKind _ .instrument
  obtain ⟨vs, hvs⟩ := hpass.exists_visits (t := closedTree) (u := closedUnit) rfl .traversal
  obtain ⟨ms, hms, -⟩ := Observation.insertive_integerRule.exists_matchesIn (t := closedTree)
    (u := closedUnit) rfl
  have hone : closedUnit.IsOneFile := by decide +kernel
  have hmatches := run_closed
  rw [hms] at hmatches
  obtain ⟨m, rfl, hm⟩ := List.map_eq_singleton_iff.mp hmatches
  obtain ⟨⟨edits, numbering⟩, hrun, hmade⟩ := Option.map_eq_some_iff.mp hm
  obtain ⟨hadded, rfl⟩ := Prod.mk.inj hmade
  obtain ⟨accepted, hadded, hnumbers⟩ := Option.map_eq_some_iff.mp hadded
  have hsingle : RuleSet.single Observation.integerRule ∈ integerPass.sets :=
    .tail _ (.tail _ (.tail _ (.head _)))
  obtain ⟨index, hv⟩ := Pass.exists_mem_visits hvs hsingle hms List.mem_cons_self
  obtain ⟨index', m', hws⟩ := Pass.exists_visits_late { targets := [.arrayIndex] } .mutate rfl hone
    (show closedUnit.root = .root closedTree from rfl) rfl
  obtain ⟨lines, hlines, -, htextAt⟩ := Hooks.exists_editsOf_definitionRule ⟨closedUnit, accepted⟩ m'
    (Numbering.next {} .int).2
  refine ⟨rfl, by decide +kernel, hone, integerPass, .tail _ (.head _), _,
    .tail _ (.tail _ (.head _)), vs, _, edits, _, accepted, _, _, lines, hvs, hv,
    eq_ok_of_toOption hrun, eq_ok_of_toOption hadded, hws, List.mem_cons_self, hlines,
    by decide, ?_⟩
  have hread : Hooks.numbersAfter accepted (Hooks.closerStem Hooks.arrayHook) = [7, 7] :=
    (List.cons.inj hnumbers).1
  have hdefined : (Hooks.arrayHook, 7) ∈ Hooks.defined accepted Hooks.all := by
    refine List.mem_flatMap.mpr ⟨Hooks.arrayHook, List.mem_cons_self, List.mem_map_of_mem ?_⟩
    rw [hread, List.mergeSort_of_pairwise (by decide)]
    decide
  rw [htextAt, Hooks.definesIn,
    (Hooks.numbered_definitionLines (fun _ => Hooks.mem_of_mem_defined) (by decide)).numbersIn_eq
      (by decide)]
  exact List.mem_flatMap.mpr ⟨_, hdefined, List.mem_singleton.mpr rfl⟩

end Pipeline

end ProbeWeaver
