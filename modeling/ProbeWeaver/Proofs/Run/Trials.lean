import ProbeWeaver.Proofs.Run.Stages

/-!
# Proofs/Run/Trials — the matches that a run tries, one after the other

Whatever the rules are, a run evaluates one match after the other (`RunState.Tries`).  One whose
edits are made takes the accepted edits of its file and the numbering on; one that fails is counted
for its file and changes nothing else.  The units of the files never change, so which matches come,
and in which order, is settled before the first of them (`schedule`).

* `Pipeline.exists_trials_of_perform` — a run that succeeds tries its schedule.
-/

namespace ProbeWeaver

variable {pass : Pass} {phase : Phase} {place : Nat} {v : Visit}
  {front back slots slots' : List FileSlot} {file file' : ParsedFile}
  {numbering numbering' : Numbering}

/-! ## Trials -/

/-- **What a run has come to between two matches.** -/
structure RunState where
  slots : List FileSlot
  numbering : Numbering

/-- **A match tried in a run**: the place of its file, the visit, and what came of it. -/
structure Trial where
  place : Nat
  visit : Visit
  result : Except MatchError (List Edit)

namespace Trial

/-- What a trial evaluates, and where. -/
def call (t : Trial) : Nat × Visit := (t.place, t.visit)

/-- The edits that were made. -/
def made (t : Trial) : List Edit := t.result.toOption.getD []

/-- The match failed. -/
def isFailed (t : Trial) : Bool := !t.result.isOk

end Trial

/-- The unit of a file in the run. -/
def FileSlot.unit? : FileSlot → Option SourceUnit
  | .parsed file => some file.unit
  | .abandoned _ _ _ => none

/-- A list with one element exchanged is elsewhere as it was. -/
theorem getElem?_append_cons_of_ne {α : Type} {front back : List α} {a b : α} {i : Nat}
    (h : front.length ≠ i) : (front ++ a :: back)[i]? = (front ++ b :: back)[i]? := by
  rcases Nat.lt_or_gt_of_ne h with hlt | hgt
  · obtain ⟨k, hk⟩ : ∃ k, i - front.length = k + 1 := ⟨i - front.length - 1, by omega⟩
    rw [List.getElem?_append_right (Nat.le_of_lt hlt),
      List.getElem?_append_right (Nat.le_of_lt hlt), hk]
    rfl
  · rw [List.getElem?_append_left hgt, List.getElem?_append_left hgt]

namespace RunState

variable {s s' s'' : RunState} {t : Trial} {log log' : List Trial}

/-- **One match is tried.**  Its edits are made with the numbers at hand and accepted for its file;
or it fails, and the numbers are at hand as before. -/
inductive Tries : RunState → Trial → RunState → Prop where
  | made {front back : List FileSlot} {file : ParsedFile} {visit : Visit} {edits : List Edit}
      {accepted : EditSet} {numbering numbering' : Numbering}
      (made : (visit.rule.editsOf ⟨file.unit, file.edits⟩ visit.found).run numbering =
        .ok (edits, numbering'))
      (added : ParsedFile.addAll file.unit.source file.edits edits = .ok accepted) :
      Tries ⟨front ++ .parsed file :: back, numbering⟩ ⟨front.length, visit, .ok edits⟩
        ⟨front ++ .parsed { file with edits := accepted } :: back, numbering'⟩
  | failed {front back : List FileSlot} {file : ParsedFile} {visit : Visit} {cause : MatchError}
      {numbering : Numbering}
      (failed : (visit.rule.editsOf ⟨file.unit, file.edits⟩ visit.found).run numbering =
        .error cause) :
      Tries ⟨front ++ .parsed file :: back, numbering⟩ ⟨front.length, visit, .error cause⟩
        ⟨front ++ .parsed file.skip :: back, numbering⟩

/-- **Matches tried in a row.** -/
inductive TriesAll : RunState → List Trial → RunState → Prop where
  | nil {s : RunState} : TriesAll s [] s
  | cons {s s' s'' : RunState} {t : Trial} {log : List Trial} (first : Tries s t s')
      (rest : TriesAll s' log s'') : TriesAll s (t :: log) s''

theorem TriesAll.append (h : TriesAll s log s') (h' : TriesAll s' log' s'') :
    TriesAll s (log ++ log') s'' := by
  induction h with
  | nil => exact h'
  | cons first _ ih => exact .cons first (ih h')

/-- The units of the files. -/
def units (s : RunState) : List (Option SourceUnit) := s.slots.map FileSlot.unit?

theorem Tries.units_eq (h : Tries s t s') : s'.units = s.units := by
  cases h
  all_goals
    simp only [units, List.map_append, List.map_cons]
    rfl

/-- **The units never change.** -/
theorem TriesAll.units_eq (h : TriesAll s log s') : s'.units = s.units := by
  induction h with
  | nil => rfl
  | cons first _ ih => rw [ih, first.units_eq]

end RunState

open RunState

/-! ## The schedule -/

/-- The visits of a pass in a file. -/
def Pass.visitsIn (pass : Pass) (phase : Phase) (unit? : Option SourceUnit) : List Visit :=
  match unit? with
  | some u => (pass.visits u phase).toOption.getD []
  | none => []

/-- The visits of one phase of a pass in each file in turn, the first file having number `i`. -/
def callsFrom (pass : Pass) (phase : Phase) : Nat → List (Option SourceUnit) → List (Nat × Visit)
  | _, [] => []
  | i, u :: us => (pass.visitsIn phase u).map (i, ·) ++ callsFrom pass phase (i + 1) us

/-- **The visits of passes in files**, in the order in which a run comes to them. -/
def schedule (passes : List Pass) (units : List (Option SourceUnit)) : List (Nat × Visit) :=
  passes.flatMap fun pass => callsFrom pass .traversal 0 units ++ callsFrom pass .late 0 units

theorem mem_callsFrom : ∀ {i : Nat} {us : List (Option SourceUnit)},
    (place, v) ∈ callsFrom pass phase i us → ∃ u vs, us[place - i]? = some (some u) ∧ i ≤ place ∧
      pass.visits u phase = .ok vs ∧ v ∈ vs
  | _, [], h => absurd h List.not_mem_nil
  | i, unit? :: us, h => by
      rcases List.mem_append.mp h with h | h
      · obtain ⟨w, hw, hplace⟩ := List.mem_map.mp h
        obtain ⟨rfl, rfl⟩ := Prod.mk.inj hplace
        cases unit? with
        | none => exact absurd hw List.not_mem_nil
        | some u =>
          cases hvs : pass.visits u phase with
          | error cause =>
            rw [Pass.visitsIn, hvs] at hw
            exact absurd hw List.not_mem_nil
          | ok vs =>
            rw [Pass.visitsIn, hvs] at hw
            exact ⟨u, vs, by rw [Nat.sub_self]; rfl, Nat.le_refl _, hvs, hw⟩
      · obtain ⟨u, vs, hu, hle, hvs, hv⟩ := mem_callsFrom h
        refine ⟨u, vs, ?_, Nat.le_of_succ_le hle, hvs, hv⟩
        rw [show place - i = place - (i + 1) + 1 by omega, List.getElem?_cons_succ]
        exact hu

/-- **What is scheduled** is a visit of one of the passes in the unit at the place. -/
theorem mem_schedule {passes : List Pass} {units : List (Option SourceUnit)}
    (h : (place, v) ∈ schedule passes units) : ∃ pass ∈ passes, ∃ phase u vs,
      units[place]? = some (some u) ∧ pass.visits u phase = .ok vs ∧ v ∈ vs := by
  obtain ⟨pass, hpass, h⟩ := List.mem_flatMap.mp h
  rcases List.mem_append.mp h with h | h
  all_goals
    obtain ⟨u, vs, hu, -, hvs, hv⟩ := mem_callsFrom h
    exact ⟨pass, hpass, _, u, vs, hu, hvs, hv⟩

/-! ## Passes try their visits -/

namespace ParsedFile

/-- **Visits of a file** are tried one after the other. -/
theorem exists_trials_of_visitAll : ∀ {vs : List Visit} {file : ParsedFile} {numbering : Numbering},
    visitAll pass file numbering vs = .ok (file', numbering') →
      ∃ log, TriesAll ⟨front ++ .parsed file :: back, numbering⟩ log
        ⟨front ++ .parsed file' :: back, numbering'⟩ ∧ log.map Trial.call = vs.map (front.length, ·)
  | [], _, _, h => by
      obtain ⟨rfl, rfl⟩ := Prod.mk.inj (Except.ok.inj h)
      exact ⟨[], .nil, rfl⟩
  | v :: vs, file, numbering, h => by
      rw [visitAll] at h
      split at h
      · next cause hfailed =>
        obtain ⟨log, htries, hcalls⟩ := exists_trials_of_visitAll h
        exact ⟨⟨front.length, v, .error cause⟩ :: log, .cons (.failed hfailed) htries, by
          rw [List.map_cons, List.map_cons, hcalls]; rfl⟩
      · next edits _ hmade =>
        split at h
        · next accepted hadded =>
          obtain ⟨log, htries, hcalls⟩ := exists_trials_of_visitAll h
          exact ⟨⟨front.length, v, .ok edits⟩ :: log, .cons (.made hmade hadded) htries, by
            rw [List.map_cons, List.map_cons, hcalls]; rfl⟩
        · cases h

theorem exists_trials_of_runOn (front back : List FileSlot)
    (h : file.runOn pass phase numbering = .ok (file', numbering')) :
    ∃ log, TriesAll ⟨front ++ .parsed file :: back, numbering⟩ log
      ⟨front ++ .parsed file' :: back, numbering'⟩ ∧
        log.map Trial.call = (pass.visitsIn phase (some file.unit)).map (front.length, ·) := by
  rw [runOn] at h
  split at h
  · next vs hvs =>
    rw [Pass.visitsIn, hvs]
    exact exists_trials_of_visitAll h
  · cases h

end ParsedFile

namespace FileSlot

theorem exists_trials_of_runOnAt : ∀ (front : List FileSlot) {slots slots' : List FileSlot}
    {numbering numbering' : Numbering},
      runOnAt pass phase slots numbering = .ok (slots', numbering') →
        ∃ log, TriesAll ⟨front ++ slots, numbering⟩ log ⟨front ++ slots', numbering'⟩ ∧
          log.map Trial.call = callsFrom pass phase front.length (slots.map unit?)
  | _, [], _, _, _, h => by
      obtain ⟨rfl, rfl⟩ := Prod.mk.inj (Except.ok.inj h)
      exact ⟨[], .nil, rfl⟩
  | front, .abandoned path source cause :: slots, _, _, _, h => by
      obtain ⟨⟨rest, _⟩, hrest, h⟩ := bind_eq_ok_iff.mp h
      obtain ⟨rfl, rfl⟩ := Prod.mk.inj (Except.ok.inj h)
      obtain ⟨log, htries, hcalls⟩ :=
        exists_trials_of_runOnAt (front ++ [.abandoned path source cause]) hrest
      rw [List.append_assoc, List.append_assoc] at htries
      rw [List.length_append] at hcalls
      exact ⟨log, htries, hcalls⟩
  | front, .parsed file :: slots, _, _, _, h => by
      obtain ⟨⟨file', _⟩, hfile, h⟩ := bind_eq_ok_iff.mp h
      obtain ⟨⟨rest, _⟩, hrest, h⟩ := bind_eq_ok_iff.mp h
      obtain ⟨rfl, rfl⟩ := Prod.mk.inj (Except.ok.inj h)
      obtain ⟨log, htries, hcalls⟩ := ParsedFile.exists_trials_of_runOn front slots hfile
      obtain ⟨log', htries', hcalls'⟩ := exists_trials_of_runOnAt (front ++ [.parsed file']) hrest
      rw [List.append_assoc, List.append_assoc] at htries'
      rw [List.length_append] at hcalls'
      exact ⟨log ++ log', htries.append htries', by
        rw [List.map_append, hcalls, hcalls']; rfl⟩

/-- **One pass over all files**: first everything on the way, then everything late. -/
theorem exists_trials_of_runOn (h : runOn pass slots numbering = .ok (slots', numbering')) :
    ∃ log, TriesAll ⟨slots, numbering⟩ log ⟨slots', numbering'⟩ ∧
      log.map Trial.call = callsFrom pass .traversal 0 (slots.map unit?) ++
        callsFrom pass .late 0 (slots.map unit?) := by
  obtain ⟨⟨slots₁, numbering₁⟩, hfirst, h⟩ := bind_eq_ok_iff.mp h
  obtain ⟨log, htries, hcalls⟩ := exists_trials_of_runOnAt [] hfirst
  have hunits : slots₁.map unit? = slots.map unit? := htries.units_eq
  obtain ⟨log', htries', hcalls'⟩ := exists_trials_of_runOnAt [] h
  rw [hunits] at hcalls'
  exact ⟨log ++ log', htries.append htries', by rw [List.map_append, hcalls, hcalls']; rfl⟩

/-- **Passes in a row** try their schedule. -/
theorem exists_trials_of_runAll : ∀ {passes : List Pass} {slots : List FileSlot}
    {numbering : Numbering}, runAll passes slots numbering = .ok (slots', numbering') →
      ∃ log, TriesAll ⟨slots, numbering⟩ log ⟨slots', numbering'⟩ ∧
        log.map Trial.call = schedule passes (slots.map unit?)
  | [], _, _, h => by
      obtain ⟨rfl, rfl⟩ := Prod.mk.inj (Except.ok.inj h)
      exact ⟨[], .nil, rfl⟩
  | pass :: passes, slots, numbering, h => by
      obtain ⟨⟨slots₁, numbering₁⟩, hpass, h⟩ := bind_eq_ok_iff.mp h
      obtain ⟨log, htries, hcalls⟩ := exists_trials_of_runOn hpass
      have hunits : slots₁.map unit? = slots.map unit? := htries.units_eq
      obtain ⟨log', htries', hcalls'⟩ := exists_trials_of_runAll h
      rw [hunits] at hcalls'
      refine ⟨log ++ log', htries.append htries', ?_⟩
      rw [List.map_append, hcalls, hcalls', schedule, schedule, List.flatMap_cons]

end FileSlot

/-- The unit that a file comes with. -/
def SourceFile.unit? (file : SourceFile) : Option SourceUnit := file.slot.unit?

/-- **A run that succeeds tries its schedule**, from nothing accepted and no number handed out to
the slots that its summaries are made from. -/
theorem Pipeline.exists_trials_of_perform {p : Pipeline} {files : List SourceFile}
    {summary : RunSummary} (hrun : (p.perform files).1 = .ok summary) :
    ∃ log slots, TriesAll ⟨files.map (·.slot), {}⟩ log ⟨slots, summary.numbering⟩ ∧
      log.map Trial.call = schedule p.passes (files.map (·.unit?)) ∧
        FileSlot.finishAll p.validateOutput slots = .ok summary.files := by
  rw [perform_eq] at hrun
  obtain ⟨⟨slots, numbering⟩, hpasses, h⟩ := bind_eq_ok_iff.mp hrun
  obtain ⟨summaries, hfinish, h⟩ := bind_eq_ok_iff.mp h
  obtain rfl := Except.ok.inj h
  obtain ⟨log, htries, hcalls⟩ := FileSlot.exists_trials_of_runAll hpasses
  rw [List.map_map] at hcalls
  exact ⟨log, slots, htries, hcalls, hfinish⟩

end ProbeWeaver
