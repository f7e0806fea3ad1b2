import ProbeWeaver.Proofs.Run.Trials

/-!
# Proofs/Run/History — the matches of insertive rules, one after the other

A run of insertive passes fails at no match: each takes the accepted edits of its file and the
numbering on, and nothing else (`RunState.Step`).

* `Pipeline.exists_steps_of_perform` — a run that succeeds goes through its schedule.
-/

namespace ProbeWeaver

variable {place : Nat} {v : Visit}

/-! ## Steps -/

/-- **A match evaluated in a run**: the place of its file, the visit, and the edits made. -/
structure Event where
  place : Nat
  visit : Visit
  edits : List Edit

/-- What an event evaluates, and where. -/
def Event.call (ev : Event) : Nat × Visit := (ev.place, ev.visit)

namespace RunState

variable {s s' s'' : RunState} {ev : Event} {log log' : List Event}

/-- **One match**: its edits are made with the numbers at hand and accepted for its file. -/
inductive Step : RunState → Event → RunState → Prop where
  | mk {front back : List FileSlot} {file : ParsedFile} {visit : Visit} {edits : List Edit}
      {accepted : EditSet} {numbering numbering' : Numbering}
      (made : (visit.rule.editsOf ⟨file.unit, file.edits⟩ visit.found).run numbering =
        .ok (edits, numbering'))
      (added : ParsedFile.addAll file.unit.source file.edits edits = .ok accepted) :
      Step ⟨front ++ .parsed file :: back, numbering⟩ ⟨front.length, visit, edits⟩
        ⟨front ++ .parsed { file with edits := accepted } :: back, numbering'⟩

/-- **Matches in a row.** -/
inductive Steps : RunState → List Event → RunState → Prop where
  | nil {s : RunState} : Steps s [] s
  | cons {s s' s'' : RunState} {ev : Event} {log : List Event} (step : Step s ev s')
      (rest : Steps s' log s'') : Steps s (ev :: log) s''

/-- **A row of matches cut in two.** -/
theorem Steps.exists_of_append : ∀ {log : List Event} {s : RunState},
    Steps s (log ++ log') s'' → ∃ s', Steps s log s' ∧ Steps s' log' s''
  | [], s, h => ⟨s, .nil, h⟩
  | _ :: _, _, .cons step rest => by
      obtain ⟨s', hfront, hback⟩ := rest.exists_of_append
      exact ⟨s', .cons step hfront, hback⟩

theorem Step.units_eq (h : Step s ev s') : s'.units = s.units := by
  cases h
  simp only [units, List.map_append, List.map_cons]
  rfl

/-- **The units never change.** -/
theorem Steps.units_eq (h : Steps s log s') : s'.units = s.units := by
  induction h with
  | nil => rfl
  | cons step _ ih => rw [ih, step.units_eq]

end RunState

open RunState

/-! ## Units of a run -/

/-- **Every unit starts at the root of a tree.** -/
def IsRooted (units : List (Option SourceUnit)) : Prop :=
  ∀ u, some u ∈ units → ∃ t, u.root = .root t

theorem SourceFile.root_of_unit? {origin : SourceFile} {u : SourceUnit}
    (h : origin.unit? = some u) : ∃ text, origin.text = .ok text ∧ u.source = text ∧
      u.root = .root (origin.parse text) := by
  rw [SourceFile.unit?, SourceFile.slot] at h
  split at h
  · cases h
  · next text htext =>
    split at h
    · next unit hunit =>
      obtain rfl := Option.some.inj h
      rw [SourceUnit.ofTree?] at hunit
      split at hunit
      · obtain rfl := Except.ok.inj hunit
        exact ⟨text, htext, rfl, rfl⟩
      · cases hunit
    · cases h

theorem isRooted_units (files : List SourceFile) : IsRooted (files.map (·.unit?)) := by
  intro u hu
  obtain ⟨file, -, hunit⟩ := List.mem_map.mp hu
  obtain ⟨text, -, -, hroot⟩ := SourceFile.root_of_unit? hunit
  exact ⟨_, hroot⟩

/-- The trees of the files fit their texts. -/
theorem isBoundary_units {files : List SourceFile} {u : SourceUnit} {n : Node}
    (hfiles : ∀ file ∈ files, file.SpansFit) (hunit : some u ∈ files.map (·.unit?))
    (hn : n.PlaceOf u.root.tree) :
    Text.IsBoundary u.source n.start ∧ Text.IsBoundary u.source n.stop := by
  obtain ⟨file, hfile, hunit⟩ := List.mem_map.mp hunit
  obtain ⟨text, htext, rfl, hroot⟩ := SourceFile.root_of_unit? hunit
  rw [hroot] at hn
  exact hfiles file hfile _ htext n hn.mem_walk

theorem spansFit_units {files : List SourceFile} {u : SourceUnit} {t : Tree}
    (hfiles : ∀ file ∈ files, file.SpansFit) (hunit : some u ∈ files.map (·.unit?))
    (hu : u.root = .root t) : t.SpansFit u.source := fun n hn => by
  refine isBoundary_units hfiles hunit ?_
  rw [hu]
  exact (Node.placeOf_root t).of_mem_walk hn

/-! ## Runs go through their schedule -/

/-- What insertive passes schedule has what its rule needs. -/
theorem exists_admits_of_mem_schedule {passes : List Pass} {units : List (Option SourceUnit)}
    (hpasses : ∀ pass ∈ passes, pass.Insertive) (hroots : IsRooted units)
    (h : (place, v) ∈ schedule passes units) : ∃ t, ParsedFile.Admits t v := by
  obtain ⟨pass, hpass, phase, u, vs, hunit, hvs, hv⟩ := mem_schedule h
  obtain ⟨t, hroot⟩ := hroots u (List.mem_of_getElem? hunit)
  obtain ⟨hrule, ms, hms, hfound⟩ := Pass.mem_visits hvs hv
  have hinsertive := (hpasses pass hpass).of_mem_rules hrule
  obtain ⟨ms', hms', hmatches⟩ := hinsertive.exists_matchesIn hroot
  obtain rfl := Except.ok.inj (hms.symm.trans hms')
  exact ⟨t, hinsertive, hmatches v.found hfound⟩

/-- **Trials of insertive rules** are steps of the run, one for each. -/
theorem RunState.TriesAll.exists_steps {s s' : RunState} {log : List Trial} (h : TriesAll s log s')
    (hlog : ∀ t ∈ log, ∃ tree, ParsedFile.Admits tree t.visit) :
    ∃ events, Steps s events s' ∧ events.map Event.call = log.map Trial.call := by
  induction h with
  | nil => exact ⟨[], .nil, rfl⟩
  | cons first _ ih =>
    obtain ⟨⟨tree, hrule, hwithin, hhas⟩, hlog⟩ := List.forall_mem_cons.mp hlog
    obtain ⟨events, hsteps, hcalls⟩ := ih hlog
    cases first with
    | @made _ _ _ visit edits _ _ _ hmade hadded =>
      exact ⟨⟨_, visit, edits⟩ :: events, .cons (.mk hmade hadded) hsteps, by
        rw [List.map_cons, List.map_cons, hcalls]; rfl⟩
    | @failed _ _ file _ _ numbering hfailed =>
      obtain ⟨edits, _, hmade, -⟩ :=
        hrule.exists_editsOf ⟨file.unit, file.edits⟩ hwithin hhas numbering
      exact nomatch hfailed.symm.trans hmade

namespace Pipeline

/-- **A run that succeeds goes through its schedule**, from nothing accepted and no number handed
out to the slots that its summaries are made from. -/
theorem exists_steps_of_perform {p : Pipeline} {files : List SourceFile} {summary : RunSummary}
    (hpasses : ∀ pass ∈ p.passes, pass.Insertive) (hrun : (p.perform files).1 = .ok summary) :
    ∃ log slots, Steps ⟨files.map (·.slot), {}⟩ log ⟨slots, summary.numbering⟩ ∧
      log.map Event.call = schedule p.passes (files.map (·.unit?)) ∧
        FileSlot.finishAll p.validateOutput slots = .ok summary.files := by
  obtain ⟨log, slots, htries, hcalls, hfinish⟩ := exists_trials_of_perform hrun
  have hmem : ∀ t ∈ log, (t.place, t.visit) ∈ schedule p.passes (files.map (·.unit?)) :=
    fun t ht => hcalls ▸ List.mem_map_of_mem ht
  obtain ⟨events, hsteps, hevents⟩ := htries.exists_steps fun t ht =>
    exists_admits_of_mem_schedule hpasses (isRooted_units files) (hmem t ht)
  exact ⟨events, slots, hsteps, hevents.trans hcalls, hfinish⟩

end Pipeline

end ProbeWeaver
