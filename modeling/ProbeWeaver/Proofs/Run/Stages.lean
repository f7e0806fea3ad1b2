import ProbeWeaver.Proofs.Run.Completion

/-!
# Proofs/Run/Stages — what a run returns, and the stage it ends in

Whether a run succeeds is settled by its passes and by the edits they make; the stages only follow.
`Pipeline.outcome` is the run without its stages, and whatever the passes are, a run returns just
that and ends in the stage that tells which it was.

* `Pipeline.perform_eq` — the run and its last stage in terms of the outcome.
-/

namespace ProbeWeaver

variable {α β : Type} {pass : Pass} {slots slots' : List FileSlot} {numbering numbering' : Numbering}
  {e : RunError}

/-! ## The run without its stages -/

/-- Passes over files, one after the other. -/
def FileSlot.runAll : List Pass → List FileSlot → Numbering →
    Except RunError (List FileSlot × Numbering)
  | [], slots, numbering => .ok (slots, numbering)
  | pass :: passes, slots, numbering => do
    let (slots, numbering) ← runOn pass slots numbering
    runAll passes slots numbering

/-- **What a run comes to**, whatever stages it goes through. -/
def Pipeline.outcome (p : Pipeline) (files : List SourceFile) : Except RunError RunSummary := do
  let (slots, numbering) ← FileSlot.runAll p.passes (files.map (·.slot)) {}
  let summaries ← FileSlot.finishAll p.validateOutput slots
  return ⟨summaries, numbering, p.passNames⟩

/-- The last stage of a run. -/
def RunStage.after : Except RunError RunSummary → RunStage
  | .ok _ => .done
  | .error _ => .failed

/-! ## No step of a file asks for a stage -/

/-- The failure is about stages. -/
def RunError.IsTransition : RunError → Prop
  | .invalidTransition _ _ => True
  | _ => False

/-- **A failure of either step** is what two steps in a row fail with. -/
theorem bind_eq_error_iff {ε : Type} {x : Except ε α} {f : α → Except ε β} {e : ε} :
    (x >>= f) = .error e ↔ x = .error e ∨ ∃ a, x = .ok a ∧ f a = .error e := by
  cases x with
  | error fault =>
    refine ⟨fun h => .inl (congrArg _ (Except.error.inj h)), fun h => ?_⟩
    rcases h with h | ⟨_, h, _⟩
    · exact congrArg _ (Except.error.inj h)
    · exact nomatch h
  | ok a =>
    exact ⟨fun h => .inr ⟨a, rfl, h⟩, fun h => h.elim nofun fun ⟨_, ha, h⟩ => by cases ha; exact h⟩

theorem ParsedFile.not_isTransition_of_visitAll : ∀ {vs : List Visit} {file : ParsedFile}
    {numbering : Numbering}, visitAll pass file numbering vs = .error e → ¬ e.IsTransition
  | [], _, _, h => nomatch h
  | v :: vs, file, numbering, h => by
      rw [visitAll] at h
      split at h
      · exact not_isTransition_of_visitAll h
      · split at h
        · exact not_isTransition_of_visitAll h
        · obtain rfl := Except.error.inj h
          exact id

theorem ParsedFile.not_isTransition_of_runOn {file : ParsedFile} {phase : Phase}
    (h : file.runOn pass phase numbering = .error e) : ¬ e.IsTransition := by
  rw [runOn] at h
  split at h
  · exact not_isTransition_of_visitAll h
  · obtain rfl := Except.error.inj h
    exact id

namespace FileSlot

theorem not_isTransition_of_runOnAt {phase : Phase} : ∀ {slots : List FileSlot}
    {numbering : Numbering}, runOnAt pass phase slots numbering = .error e → ¬ e.IsTransition
  | [], _, h => nomatch h
  | .abandoned _ _ _ :: _, _, h => by
      rcases bind_eq_error_iff.mp h with h | ⟨_, -, h⟩
      · exact not_isTransition_of_runOnAt h
      · exact nomatch h
  | .parsed _ :: _, _, h => by
      rcases bind_eq_error_iff.mp h with h | ⟨_, -, h⟩
      · exact ParsedFile.not_isTransition_of_runOn h
      · rcases bind_eq_error_iff.mp h with h | ⟨_, -, h⟩
        · exact not_isTransition_of_runOnAt h
        · exact nomatch h

theorem not_isTransition_of_runAll : ∀ {passes : List Pass} {slots : List FileSlot}
    {numbering : Numbering}, runAll passes slots numbering = .error e → ¬ e.IsTransition
  | [], _, _, h => nomatch h
  | _ :: _, _, _, h => by
      rcases bind_eq_error_iff.mp h with h | ⟨_, -, h⟩
      · rcases bind_eq_error_iff.mp h with h | ⟨_, -, h⟩
        · exact not_isTransition_of_runOnAt h
        · exact not_isTransition_of_runOnAt h
      · exact not_isTransition_of_runAll h

theorem not_isTransition_of_finishAll {validateOutput : Bool} : ∀ {slots : List FileSlot},
    finishAll validateOutput slots = .error e → ¬ e.IsTransition
  | [], h => nomatch h
  | slot :: _, h => by
      rcases bind_eq_error_iff.mp h with h | ⟨_, -, h⟩
      · cases slot with
        | abandoned => cases h
        | parsed file =>
          rw [finish, ParsedFile.finish] at h
          dsimp only at h
          split at h
          · obtain rfl := Except.error.inj h
            exact id
          · cases h
      · rcases bind_eq_error_iff.mp h with h | ⟨_, -, h⟩
        · exact not_isTransition_of_finishAll h
        · cases h

end FileSlot

/-- **A run never fails over its stages.** -/
theorem Pipeline.not_isTransition_of_outcome {p : Pipeline} {files : List SourceFile}
    (h : p.outcome files = .error e) : ¬ e.IsTransition := by
  rcases bind_eq_error_iff.mp h with h | ⟨_, -, h⟩
  · exact FileSlot.not_isTransition_of_runAll h
  · rcases bind_eq_error_iff.mp h with h | ⟨_, -, h⟩
    · exact FileSlot.not_isTransition_of_finishAll h
    · exact nomatch h

/-! ## The stages follow -/

namespace RunM

variable {x : RunM α} {f : α → RunM β} {a : α} {stage stage' : RunStage}

/-- **The step fails** and goes from one stage to another. -/
def Fails (x : RunM α) (stage : RunStage) (e : RunError) (stage' : RunStage) : Prop :=
  x.run.run stage = (.error e, stage')

theorem Fails.bind (hx : Fails x stage e stage') : Fails (x >>= f) stage e stage' := by
  rw [Fails, ExceptT.run_bind, StateT.run_bind, hx]
  rfl

theorem Goes.bind_fails {stage'' : RunStage} (hx : Goes x stage a stage')
    (hf : Fails (f a) stage' e stage'') : Fails (x >>= f) stage e stage'' := by
  rw [Fails, ExceptT.run_bind, StateT.run_bind, hx]
  exact hf

/-- A failure that is met before the end ends the run. -/
theorem fails_orFail (e : RunError) (h : stage.isOver = false) :
    Fails (orFail (.error e) : RunM α) stage e .failed := by
  show (if stage.isOver = true then throw e
    else do set RunStage.failed; throw e : RunM α).run.run stage = _
  rw [h]
  rfl

/-- **Passes that get through** lead to a stage at which the edits can be applied. -/
theorem exists_goes_passesFrom : ∀ {passes : List Pass} {i : Nat} {slots : List FileSlot}
    {numbering : Numbering} {stage : RunStage},
    FileSlot.runAll passes slots numbering = .ok (slots', numbering') →
      stage.allowsNext (.pass i) = true → stage.allowsNext .applying = true →
        ∃ stage', Goes (passesFrom i passes slots numbering) stage (slots', numbering') stage' ∧
          stage'.allowsNext .applying = true
  | [], _, _, _, stage, h, _, happly => by
      obtain ⟨rfl, rfl⟩ := Prod.mk.inj (Except.ok.inj h)
      exact ⟨stage, goes_pure _ stage, happly⟩
  | pass :: passes, i, slots, numbering, stage, h, hpass, _ => by
      obtain ⟨_, hrun, hrest⟩ := bind_eq_ok_iff.mp h
      have hnext : (RunStage.pass i).allowsNext (.pass (i + 1)) = true := beq_self_eq_true (i + 1)
      obtain ⟨stage', hgoes, happly'⟩ := exists_goes_passesFrom hrest hnext rfl
      refine ⟨stage', ?_, happly'⟩
      rw [passesFrom, hrun]
      exact (goes_advance hpass).bind ((goes_orFail _ _).bind hgoes)

/-- **Passes that do not get through** end the run. -/
theorem fails_passesFrom : ∀ {passes : List Pass} {i : Nat} {slots : List FileSlot}
    {numbering : Numbering} {stage : RunStage},
    FileSlot.runAll passes slots numbering = .error e → stage.allowsNext (.pass i) = true →
      Fails (passesFrom i passes slots numbering) stage e .failed
  | [], _, _, _, _, h, _ => nomatch h
  | pass :: passes, i, slots, numbering, stage, h, hpass => by
      rw [passesFrom]
      refine (goes_advance hpass).bind_fails ?_
      rcases bind_eq_error_iff.mp h with hrun | ⟨_, hrun, hrest⟩
      · rw [hrun]
        exact (fails_orFail e rfl).bind
      · rw [hrun]
        exact (goes_orFail _ _).bind_fails (fails_passesFrom hrest (beq_self_eq_true (i + 1)))

end RunM

namespace Pipeline

open RunM

/-- The passes of a run begin when its files are parsed. -/
theorem allowsNext_first : RunStage.parsing.allowsNext (.pass 0) = true := rfl

/-- A run that gets through goes to the last stage. -/
theorem goes_steps {p : Pipeline} {files : List SourceFile} {summary : RunSummary}
    (h : p.outcome files = .ok summary) : Goes (p.steps files) .idle summary .done := by
  obtain ⟨⟨slots, numbering⟩, hpasses, h⟩ := bind_eq_ok_iff.mp h
  obtain ⟨summaries, hfinish, h⟩ := bind_eq_ok_iff.mp h
  obtain rfl := Except.ok.inj h
  obtain ⟨stage, hgoes, happly⟩ := exists_goes_passesFrom hpasses allowsNext_first rfl
  refine (goes_advance rfl).bind (hgoes.bind ((goes_advance happly).bind ?_))
  rw [hfinish]
  exact (goes_orFail _ _).bind ((goes_advance rfl).bind (goes_pure _ _))

/-- A run that does not get through fails with what stopped it. -/
theorem fails_steps {p : Pipeline} {files : List SourceFile} (h : p.outcome files = .error e) :
    Fails (p.steps files) .idle e .failed := by
  refine (goes_advance rfl).bind_fails ?_
  rcases bind_eq_error_iff.mp h with hpasses | ⟨⟨slots, numbering⟩, hpasses, h⟩
  · exact (fails_passesFrom hpasses allowsNext_first).bind
  · obtain ⟨stage, hgoes, happly⟩ := exists_goes_passesFrom hpasses allowsNext_first rfl
    refine hgoes.bind_fails ((goes_advance happly).bind_fails ?_)
    rcases bind_eq_error_iff.mp h with hfinish | ⟨_, -, h⟩
    · rw [hfinish]
      exact (fails_orFail e rfl).bind
    · exact nomatch h

/-- **A run returns its outcome and stops at the stage that tells it**, whatever stage an earlier
run left the pipeline in. -/
theorem perform_eq (p : Pipeline) (files : List SourceFile) :
    p.perform files = (p.outcome files, { p with stage := .after (p.outcome files) }) := by
  cases h : p.outcome files with
  | ok summary =>
    have hrun : (p.steps files).run.run .idle = (.ok summary, .done) := goes_steps h
    rw [perform, hrun]
    rfl
  | error e =>
    have hrun : (p.steps files).run.run .idle = (.error e, .failed) := fails_steps h
    rw [perform, hrun]
    rfl

/-- **A run over paths**: its outcome, and what it writes. -/
theorem runPaths_eq (p : Pipeline) (tree : FileTree) (here : Place) (parserOf : String → Parser)
    (paths : List String) :
    p.runPaths tree here parserOf paths =
      match p.outcome (filesAt tree here parserOf paths) with
      | .error e => ⟨.error e, { p with stage := .failed }, tree⟩
      | .ok summary =>
        if p.dryRun then ⟨.ok summary, { p with stage := .done }, tree⟩
        else ⟨.ok { summary with files := (saveAll here tree summary.files).1 },
          { p with stage := .done }, (saveAll here tree summary.files).2⟩ := by
  rw [runPaths, ← filesAt, perform_eq]
  cases p.outcome (filesAt tree here parserOf paths) with
  | error e => rfl
  | ok summary => rfl

end Pipeline

end ProbeWeaver
