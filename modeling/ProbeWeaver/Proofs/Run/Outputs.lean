import ProbeWeaver.Proofs.Run.Headings
import ProbeWeaver.Proofs.Text.Weaving

/-!
# Proofs/Run/Outputs — the text that a run makes of each file

A run that succeeds goes through its schedule, and each file that takes part comes out with all edits
made for it on the way woven into its text (`Pipeline.exists_outputs`).  A pass that is listed once
cuts the run into stretches (`Pipeline.exists_stretches`).  An edit of a pass stands where the pass
has one of its places to insert (`Pass.AnchorsAt`).
-/

namespace ProbeWeaver

open Text RunState

variable {place o : Nat} {u : SourceUnit} {edit : Edit} {edits : List Edit} {file : FileSummary}
  {passes : List Pass} {x y z : String}

/-! ## One file -/

theorem ParsedFile.apply_of_finish {file : ParsedFile} {validateOutput : Bool}
    {summary : FileSummary} (h : file.finish validateOutput = .ok summary) :
    file.edits.apply file.unit.source = .ok summary.output := by
  rw [finish] at h
  dsimp only at h
  split at h
  · contradiction
  · next edited hedited =>
    obtain rfl := Except.ok.inj h
    rw [hedited, FileSummary.output]
    dsimp only
    split
    · rfl
    · next hsame => rw [not_not.mp hsame]; rfl

theorem FileSlot.exists_summary {validateOutput : Bool} {slot : FileSlot} :
    ∀ {slots : List FileSlot} {summaries : List FileSummary} {place : Nat},
      finishAll validateOutput slots = .ok summaries → slots[place]? = some slot →
        ∃ summary, summaries[place]? = some summary ∧ slot.finish validateOutput = .ok summary
  | s :: slots, summaries, place, h, hslot => by
      obtain ⟨summary, hsummary, h⟩ := bind_eq_ok_iff.mp h
      obtain ⟨rest, hrest, h⟩ := bind_eq_ok_iff.mp h
      obtain rfl := Except.ok.inj h
      cases place with
      | zero => exact ⟨summary, rfl, Option.some.inj hslot ▸ hsummary⟩
      | succ i =>
        have hrest' : ∃ summary, rest[i]? = some summary ∧
            slot.finish validateOutput = .ok summary := exists_summary hrest hslot
        exact hrest'

/-! ## All files -/

/-- **The file came out of the run** with these edits: its summary has them woven into the text. -/
structure SourceUnit.ComesOut (u : SourceUnit) (edits : List Edit) (summary : FileSummary) : Prop where
  output : summary.output = weave (textAt edits) u.source 0 u.source.utf8ByteSize
  inserts : ∀ e ∈ edits, e.length = 0

namespace SourceUnit

/-- The output up to an offset, with part of what is put there. -/
def outputTo (u : SourceUnit) (edits : List Edit) (o : Nat) (x : String) : String :=
  weave (Function.update (textAt edits) o x) u.source 0 o

/-- The output from an offset on, with part of what is put there. -/
def outputFrom (u : SourceUnit) (edits : List Edit) (o : Nat) (y : String) : String :=
  weave (Function.update (textAt edits) o y) u.source o u.source.utf8ByteSize

/-- **The output cut at an offset.** -/
theorem ComesOut.output_eq (h : u.ComesOut edits file) (ho : IsBoundary u.source o)
    (hcut : textAt edits o = x ++ y) :
    file.output = u.outputTo edits o x ++ u.outputFrom edits o y :=
  h.output.trans (weave_cut (isBoundary_zero u.source) ho (isBoundary_size u.source) (Nat.zero_le o)
    ho.le_size hcut)

/-- **Part of what is put at an offset** stands in the output, between what comes before and behind. -/
theorem ComesOut.output_at (h : u.ComesOut edits file) (ho : IsBoundary u.source o)
    (hcut : textAt edits o = x ++ (y ++ z)) :
    file.output = u.outputTo edits o x ++ (y ++ u.outputFrom edits o z) :=
  h.output.trans (weave_at (isBoundary_zero u.source) ho (isBoundary_size u.source) (Nat.zero_le o)
    ho.le_size hcut)

end SourceUnit

/-- **A run of passes and its outputs.**  Whatever the passes and the files, as long as the parser's
spans fit the texts: the run succeeds and goes through its schedule, and each file that takes part
comes out with the edits that its events made. -/
theorem Pipeline.exists_outputs_of_ofKind (p : Pipeline)
    (hp : ∀ pass ∈ p.passes, ∃ config kind, pass = Pass.ofKind config kind)
    (files : List SourceFile) (hfiles : ∀ file ∈ files, file.SpansFit) :
    ∃ summary log slots, (p.perform files).1 = .ok summary ∧
      Steps ⟨files.map (·.slot), {}⟩ log ⟨slots, summary.numbering⟩ ∧
      log.map Event.call = schedule p.passes (files.map (·.unit?)) ∧
      (∀ ev ∈ log, ∃ u t, IsListedCall (files.map (·.unit?)) ev.call u t) ∧
      ∀ place (u : SourceUnit), (files.map (·.unit?))[place]? = some (some u) →
        ∃ file, summary.files[place]? = some file ∧ u.ComesOut (editsFor place log) file := by
  have hpasses : ∀ pass ∈ p.passes, pass.Insertive := fun pass hpass => by
    obtain ⟨config, kind, rfl⟩ := hp pass hpass
    exact Pass.insertive_ofKind config kind
  obtain ⟨summary, hrun, -, -⟩ := exists_perform_of_insertive p hpasses hfiles
  obtain ⟨log, slots, hsteps, hlog, hfinish⟩ := exists_steps_of_perform hpasses hrun
  have hcalls : ∀ ev ∈ log, ∃ u t, IsListedCall (files.map (·.unit?)) ev.call u t := fun ev hev =>
    exists_isListedCall hp (isRooted_units files) (hlog ▸ List.mem_map_of_mem hev)
  refine ⟨summary, log, slots, hrun, hsteps, hlog, hcalls, fun place u hunit => ?_⟩
  have hunits : (files.map (·.unit?))[place]? = (slots.map FileSlot.unit?)[place]? := by
    rw [← units_start, ← hsteps.units_eq]
    rfl
  rw [hunits, List.getElem?_map] at hunit
  obtain ⟨slot, hslot, hslotUnit⟩ := Option.map_eq_some_iff.mp hunit
  cases slot with
  | abandoned path source cause => exact nomatch hslotUnit
  | parsed file =>
    obtain rfl := Option.some.inj hslotUnit
    obtain ⟨-, hholds⟩ := hsteps.holds_of_start hcalls hslot
    obtain ⟨result, hresult, hdone⟩ := FileSlot.exists_summary hfinish hslot
    have happly := ParsedFile.apply_of_finish hdone
    rw [hholds.gathers.apply_eq hholds.fits] at happly
    refine ⟨result, hresult, (Except.ok.inj happly).symm, fun e he => ?_⟩
    obtain ⟨ev, hev, rfl, hmade⟩ := exists_event_of_mem_editsFor he
    obtain ⟨v, t, accepted, draws, hcall, hmakes, -⟩ :=
      hsteps.exists_makes (units_start files ▸ hcalls) hev hmade
    obtain ⟨hwithin, hhas⟩ := hcall.listed.insertive.of_offers hcall.root hcall.offers
    exact Rule.Makes.length_eq_zero hmakes hcall.listed.insertive hwithin hhas

/-- A run of the configured passes. -/
theorem Pipeline.exists_outputs (config : RunSettings) (validateOutput dryRun : Bool)
    (files : List SourceFile) (hfiles : ∀ file ∈ files, file.SpansFit) :
    ∃ summary log slots, ((build config.selectedPasses validateOutput dryRun).perform files).1 =
        .ok summary ∧
      Steps ⟨files.map (·.slot), {}⟩ log ⟨slots, summary.numbering⟩ ∧
      log.map Event.call = schedule (build config.selectedPasses validateOutput dryRun).passes
        (files.map (·.unit?)) ∧
      (∀ ev ∈ log, ∃ u t, IsListedCall (files.map (·.unit?)) ev.call u t) ∧
      ∀ place (u : SourceUnit), (files.map (·.unit?))[place]? = some (some u) →
        ∃ file, summary.files[place]? = some file ∧ u.ComesOut (editsFor place log) file :=
  exists_outputs_of_ofKind _ (fun _ hp => exists_ofKind_of_mem_build hp) files hfiles

/-! ## Where a pass inserts -/

/-- **The pass has a place to insert** at the offset: an edit of one of its visits is anchored
there. -/
def Pass.AnchorsAt (p : Pass) (u : SourceUnit) (offset : Nat) : Prop :=
  ∃ phase vs v e length, p.visits u phase = .ok vs ∧ v ∈ vs ∧ e ∈ v.rule.edits ∧
    Rule.anchorRange v.found e.anchor = .ok (offset, length)

namespace RunState

variable {s s' : RunState} {log : List Event}

/-- **The edits that passes make** stand where one of them has a place to insert. -/
theorem Steps.exists_anchorsAt (hsteps : Steps s log s')
    (hcalls : ∀ ev ∈ log, ∃ u t, IsListedCall s.units ev.call u t)
    (hlog : log.map Event.call = schedule passes s.units)
    (hunit : s.units[place]? = some (some u)) (hedit : edit ∈ editsFor place log) :
    ∃ p ∈ passes, p.AnchorsAt u edit.offset := by
  obtain ⟨ev, hev, rfl, hmade⟩ := exists_event_of_mem_editsFor hedit
  obtain ⟨v, t, accepted, draws, hcall, ⟨e, he, hrange, -⟩, -⟩ := hsteps.exists_makes hcalls hev hmade
  have hmem : (ev.place, ev.visit) ∈ schedule passes s.units := hlog ▸ List.mem_map_of_mem hev
  obtain ⟨p, hp, phase, u', vs, hunit', hvs, hv⟩ := mem_schedule hmem
  obtain rfl := Option.some.inj (Option.some.inj (hunit.symm.trans hunit'))
  exact ⟨p, hp, phase, vs, ev.visit, e, edit.length, hvs, hv, he, hrange⟩

/-- **The visits of a pass in one file** are the events of that file. -/
theorem filter_callsFrom {pass : Pass} {phase : Phase} {units : List (Option SourceUnit)}
    (hunit : units[place]? = some (some u)) :
    (callsFrom pass phase 0 units).filter (·.1 == place) =
      (pass.visitsIn phase (some u)).map (place, ·) := by
  obtain ⟨front, back, hcalls, hplaces⟩ := @callsFrom_split pass phase units 0 place _ hunit
  rw [Nat.zero_add] at hcalls hplaces
  have hnone : ∀ calls : List (Nat × Visit), (∀ call ∈ calls, call.1 ≠ place) →
      calls.filter (·.1 == place) = [] := fun calls h =>
    List.filter_eq_nil_iff.mpr fun call hcall => by simpa using h call hcall
  rw [hcalls, List.filter_append, List.filter_append,
    hnone front fun call hcall => hplaces call (List.mem_append_left _ hcall),
    hnone back fun call hcall => hplaces call (List.mem_append_right _ hcall), List.append_nil,
    List.nil_append]
  exact List.filter_eq_self.mpr fun call hcall => by
    obtain ⟨v, -, rfl⟩ := List.mem_map.mp hcall
    exact beq_self_eq_true place

theorem filter_of_calls {pass : Pass} {phase : Phase}
    (hlog : log.map Event.call = callsFrom pass phase 0 s.units)
    (hunit : s.units[place]? = some (some u)) :
    (log.filter (·.place == place)).map (·.visit) = pass.visitsIn phase (some u) := by
  have hfilter : (log.filter (·.place == place)).map Event.call =
      (log.map Event.call).filter (·.1 == place) := by
    rw [List.filter_map]
    rfl
  have hvisits : (log.filter (·.place == place)).map (·.visit) =
      ((log.filter (·.place == place)).map Event.call).map Prod.snd := by
    rw [List.map_map]
    rfl
  rw [hvisits, hfilter, hlog, filter_callsFrom hunit, List.map_map]
  exact List.map_id _

end RunState

/-! ## Around one pass -/

/-- **A stretch of a run**: matches in a row that make the calls. -/
structure RunState.Ran (units : List (Option SourceUnit)) (log : List Event)
    (calls : List (Nat × Visit)) : Prop where
  calls : log.map Event.call = calls
  listed : ∀ ev ∈ log, ∃ u t, IsListedCall units ev.call u t
  steps : ∃ s s', Steps s log s' ∧ s.units = units

/-- A stretch cut in two. -/
theorem RunState.Ran.cut {units : List (Option SourceUnit)} {front back : List Event}
    {calls : List (Nat × Visit)} (h : Ran units (front ++ back) calls) :
    Ran units front (front.map Event.call) ∧ Ran units back (back.map Event.call) := by
  obtain ⟨-, hlisted, s, s', hsteps, hunits⟩ := h
  obtain ⟨s₁, hsteps, hsteps'⟩ := hsteps.exists_of_append
  exact ⟨⟨rfl, fun ev hev => hlisted ev (List.mem_append_left _ hev), s, s₁, hsteps, hunits⟩,
    ⟨rfl, fun ev hev => hlisted ev (List.mem_append_right _ hev), s₁, s', hsteps',
      hsteps.units_eq.trans hunits⟩⟩

theorem RunState.Ran.exists_of_append {units : List (Option SourceUnit)} {log : List Event}
    {calls more : List (Nat × Visit)} (h : Ran units log (calls ++ more)) :
    ∃ front back, log = front ++ back ∧ Ran units front calls ∧ Ran units back more := by
  obtain ⟨front, back, rfl, rfl, rfl⟩ := List.map_eq_append_iff.mp h.calls
  exact ⟨front, back, rfl, h.cut⟩

/-- **What an event made**: its rule's edits for its match. -/
theorem RunState.Ran.exists_run {units : List (Option SourceUnit)} {log : List Event}
    {calls : List (Nat × Visit)} {ev : Event} (h : Ran units log calls) (hev : ev ∈ log) :
    ∃ cx numbering numbering',
      (ev.visit.rule.editsOf cx ev.visit.found).run numbering = .ok (ev.edits, numbering') := by
  obtain ⟨s, s', hsteps, -⟩ := h.steps
  obtain ⟨front, back, rfl⟩ := List.append_of_mem hev
  obtain ⟨s₁, -, hrest⟩ := hsteps.exists_of_append
  cases hrest with
  | cons step _ =>
    obtain ⟨file, -, hmade⟩ := step.exists_made
    exact ⟨_, _, _, hmade⟩

/-- Each call has its event. -/
theorem RunState.Ran.exists_event {units : List (Option SourceUnit)} {log : List Event}
    {calls : List (Nat × Visit)} {v : Visit} (h : Ran units log calls) (hv : (place, v) ∈ calls) :
    ∃ ev ∈ log, ev.place = place ∧ ev.visit = v := by
  obtain ⟨ev, hev, hcall⟩ := List.mem_map.mp (h.calls ▸ hv)
  obtain ⟨hplace, hvisit⟩ := Prod.mk.inj hcall
  exact ⟨ev, hev, hplace, hvisit⟩

/-- **A run around one pass.**  Whatever the configuration, as long as it lists the pass once: the
run succeeds, and each file that takes part comes out with the edits of the passes before, those of
the pass on its way through the files, those of its late rule, and those of the passes after. -/
theorem Pipeline.exists_stretches (config : RunSettings) {kind : PassKind} (hkind : kind ≠ .braces)
    (honce : config.passes.count kind = 1) (validateOutput dryRun : Bool) (files : List SourceFile)
    (hfiles : ∀ file ∈ files, file.SpansFit) :
    ∃ front back, (build config.selectedPasses validateOutput dryRun).passes =
        front ++ Pass.ofKind config kind :: back ∧ (∀ p ∈ front ++ back, p.IsOther kind) ∧
      ∃ summary before mine late after,
        ((build config.selectedPasses validateOutput dryRun).perform files).1 = .ok summary ∧
        Ran (files.map (·.unit?)) before (schedule front (files.map (·.unit?))) ∧
        Ran (files.map (·.unit?)) mine
          (callsFrom (Pass.ofKind config kind) .traversal 0 (files.map (·.unit?))) ∧
        Ran (files.map (·.unit?)) late
          (callsFrom (Pass.ofKind config kind) .late 0 (files.map (·.unit?))) ∧
        Ran (files.map (·.unit?)) after (schedule back (files.map (·.unit?))) ∧
        (∃ slots, Steps ⟨files.map (·.slot), {}⟩ (before ++ (mine ++ (late ++ after)))
          ⟨slots, summary.numbering⟩) ∧
        ∀ place (u : SourceUnit), (files.map (·.unit?))[place]? = some (some u) →
          ∃ file, summary.files[place]? = some file ∧
            u.ComesOut (editsFor place before ++ (editsFor place mine ++
              (editsFor place late ++ editsFor place after))) file := by
  obtain ⟨front, back, hpasses, hothers⟩ := exists_passes_eq hkind honce validateOutput dryRun
  obtain ⟨summary, log, slots, hrun, hsteps, hlog, hcalls, hout⟩ :=
    exists_outputs config validateOutput dryRun files hfiles
  have hschedule : schedule (build config.selectedPasses validateOutput dryRun).passes
      (files.map (·.unit?)) = schedule front (files.map (·.unit?)) ++
        (callsFrom (Pass.ofKind config kind) .traversal 0 (files.map (·.unit?)) ++
          (callsFrom (Pass.ofKind config kind) .late 0 (files.map (·.unit?)) ++
            schedule back (files.map (·.unit?)))) := by
    rw [hpasses, schedule_append, ← List.append_assoc (callsFrom _ _ _ _)]
    rfl
  rw [hschedule] at hlog
  have hran : Ran (files.map (·.unit?)) log _ := ⟨hlog, hcalls, _, _, hsteps, units_start files⟩
  obtain ⟨before, rest, rfl, hbefore, hrest⟩ := hran.exists_of_append
  obtain ⟨mine, rest, rfl, hmine, hrest⟩ := hrest.exists_of_append
  obtain ⟨late, after, rfl, hlate, hafter⟩ := hrest.exists_of_append
  refine ⟨front, back, hpasses, hothers, summary, before, mine, late, after, hrun, hbefore, hmine,
    hlate, hafter, ⟨slots, hsteps⟩, fun place u hunit => ?_⟩
  have hout := hout place u hunit
  rwa [editsFor_append, editsFor_append, editsFor_append] at hout

end ProbeWeaver
