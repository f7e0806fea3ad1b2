import ProbeWeaver.Proofs.Run.Reports

/-!
# Proofs/Run/Abandonment — files left out of a run leave no trace in it

A file that cannot be read, or whose tree has an error, is abandoned.  No pass looks at its slot and
no number is drawn for it, so running over all files and dropping the abandoned ones from what comes
out is the same as dropping them before the run.

* `Pipeline.leavesOut_abandoned` — runs over texts and over paths, with and without abandoned files.
-/

namespace ProbeWeaver

variable {pass : Pass} {phase : Phase}

/-! ## Slots -/

namespace FileSlot

/-- The file takes part in the run. -/
def isParsed : FileSlot → Bool
  | .parsed _ => true
  | .abandoned _ _ _ => false

theorem Follows.isParsed_eq {slot : FileSlot} {origin : SourceFile} (h : slot.Follows origin) :
    slot.isParsed = origin.takesPart := by
  cases h with
  | parsed takes => exact takes.symm
  | abandoned cause takes => exact takes.symm

theorem filter_map_slot (files : List SourceFile) :
    (files.map (·.slot)).filter isParsed = (files.filter (·.takesPart)).map (·.slot) := by
  rw [List.filter_map]
  congr 1
  exact List.filter_congr fun file _ => file.follows_slot.isParsed_eq

/-- What a run has come to, less the abandoned files. -/
def sift (r : List FileSlot × Numbering) : List FileSlot × Numbering := (r.1.filter isParsed, r.2)

/-- **One phase of a pass** does not look at abandoned files. -/
theorem runOnAt_filter : ∀ (slots : List FileSlot) (numbering : Numbering),
    runOnAt pass phase (slots.filter isParsed) numbering =
      (runOnAt pass phase slots numbering).map sift
  | [], _ => rfl
  | .abandoned path source cause :: slots, numbering => by
      rw [List.filter_cons_of_neg Bool.false_ne_true, runOnAt_filter slots numbering, runOnAt]
      cases runOnAt pass phase slots numbering with
      | error e => rfl
      | ok r => rfl
  | .parsed file :: slots, numbering => by
      rw [List.filter_cons_of_pos (by rfl), runOnAt, runOnAt]
      cases file.runOn pass phase numbering with
      | error e => rfl
      | ok r =>
        show (runOnAt pass phase (slots.filter isParsed) r.2 >>= _) =
          (runOnAt pass phase slots r.2 >>= _).map sift
        rw [runOnAt_filter slots r.2]
        cases runOnAt pass phase slots r.2 with
        | error e => rfl
        | ok s => rfl

theorem runAll_filter : ∀ (passes : List Pass) (slots : List FileSlot) (numbering : Numbering),
    runAll passes (slots.filter isParsed) numbering = (runAll passes slots numbering).map sift
  | [], _, _ => rfl
  | pass :: passes, slots, numbering => by
      rw [runAll, runAll, runOn, runOn, runOnAt_filter]
      cases runOnAt pass .traversal slots numbering with
      | error e => rfl
      | ok r =>
        show (runOnAt pass .late (r.1.filter isParsed) r.2 >>= _) = (_ >>= _ : Except _ _).map sift
        rw [runOnAt_filter]
        show _ = (runOnAt pass .late r.1 r.2 >>= _).map sift
        cases runOnAt pass .late r.1 r.2 with
        | error e => rfl
        | ok s => exact runAll_filter passes s.1 s.2

end FileSlot

/-! ## Summaries -/

/-- The file took no part in the run. -/
def FileVerdict.isAbandoned : FileVerdict → Bool
  | .abandoned _ => true
  | _ => false

/-- The summaries of files that took part in the run. -/
def FileSummary.sift (summaries : List FileSummary) : List FileSummary :=
  summaries.filter (!·.status.isAbandoned)

theorem FileSlot.finishAll_filter (validateOutput : Bool) : ∀ slots : List FileSlot,
    finishAll validateOutput (slots.filter isParsed) =
      (finishAll validateOutput slots).map FileSummary.sift
  | [] => rfl
  | .abandoned path source cause :: slots => by
      rw [List.filter_cons_of_neg Bool.false_ne_true, finishAll_filter validateOutput slots,
        finishAll]
      cases finishAll validateOutput slots with
      | error e => rfl
      | ok summaries => rfl
  | .parsed file :: slots => by
      rw [List.filter_cons_of_pos (by rfl), finishAll, finishAll,
        finishAll_filter validateOutput slots]
      cases hfinish : finish validateOutput (.parsed file) with
      | error e => rfl
      | ok summary =>
        have htook : summary.status.isAbandoned = false := by
          rw [finish, ParsedFile.finish] at hfinish
          dsimp only at hfinish
          split at hfinish
          · cases hfinish
          · obtain rfl := Except.ok.inj hfinish
            dsimp only
            split <;> rfl
        cases finishAll validateOutput slots with
        | error e => rfl
        | ok summaries =>
          show Except.ok (summary :: FileSummary.sift summaries) =
            Except.ok (FileSummary.sift (summary :: summaries))
          rw [FileSummary.sift, FileSummary.sift, List.filter_cons_of_pos (by rw [htook]; rfl)]

/-- **What a summary says of a file**: that it was abandoned, if it was, and then that no edit was
made, the text is as it was, and there is nothing to write. -/
structure FileSummary.Accounts (file : SourceFile) (summary : FileSummary) : Prop where
  path : summary.path = file.path
  isAbandoned : summary.status.isAbandoned = !file.takesPart
  edits : file.takesPart = false → summary.edits = 0
  output : file.takesPart = false → summary.output = file.content
  edited : file.takesPart = false → summary.edited = none

theorem FileSummary.Reports.accounts {file : SourceFile} {summary : FileSummary}
    (h : summary.Reports file) : summary.Accounts file := by
  cases h with
  | abandoned cause takes => exact ⟨rfl, by rw [takes]; rfl, fun _ => rfl, fun _ => rfl, fun _ => rfl⟩
  | unchanged edits skipped introduced takes htext =>
    exact ⟨rfl, by rw [takes]; rfl, by rw [takes]; nofun, by rw [takes]; nofun, by rw [takes]; nofun⟩
  | edited edits skipped introduced takes htext hne =>
    exact ⟨rfl, by rw [takes]; rfl, by rw [takes]; nofun, by rw [takes]; nofun, by rw [takes]; nofun⟩

/-! ## Runs -/

/-- **The summaries of the files that take part**, picked by the files. -/
def RunSummary.ofTaking (files : List SourceFile) (summary : RunSummary) : RunSummary :=
  { summary with files := ((files.zip summary.files).filter (·.1.takesPart)).map (·.2) }

/-- **A run over files, and the one without the abandoned files**: both fail alike, or the second
has just the summaries of the files that take part, and the same numbers. -/
inductive LeavesOut (files : List SourceFile) :
    Except RunError RunSummary → Except RunError RunSummary → Prop where
  | failed (e : RunError) : LeavesOut files (.error e) (.error e)
  | finished (summary : RunSummary) (accounts : List.Forall₂ FileSummary.Accounts files summary.files) :
      LeavesOut files (.ok summary) (.ok (summary.ofTaking files))

theorem sift_eq_of_accounts {files : List SourceFile} {summaries : List FileSummary}
    (h : List.Forall₂ FileSummary.Accounts files summaries) :
    FileSummary.sift summaries = ((files.zip summaries).filter (·.1.takesPart)).map (·.2) := by
  induction h with
  | nil => rfl
  | @cons file summary files summaries h _ ih =>
    rw [FileSummary.sift] at ih ⊢
    have hstatus := h.isAbandoned
    rw [List.zip_cons_cons, List.filter_cons, List.filter_cons, ih, hstatus, Bool.not_not]
    cases file.takesPart with
    | true => rfl
    | false => rfl

namespace Pipeline

/-- **The outcome of a run without the abandoned files.** -/
theorem outcome_filter (p : Pipeline) (files : List SourceFile) :
    p.outcome (files.filter (·.takesPart)) =
      (p.outcome files).map fun summary => { summary with files := FileSummary.sift summary.files } := by
  rw [outcome, outcome, ← FileSlot.filter_map_slot, FileSlot.runAll_filter]
  cases FileSlot.runAll p.passes (files.map (·.slot)) {} with
  | error e => rfl
  | ok r =>
    show (FileSlot.finishAll p.validateOutput (r.1.filter FileSlot.isParsed) >>= _) =
      (FileSlot.finishAll p.validateOutput r.1 >>= _).map _
    rw [FileSlot.finishAll_filter]
    cases FileSlot.finishAll p.validateOutput r.1 with
    | error e => rfl
    | ok summaries => rfl

theorem leavesOut_outcome (p : Pipeline) (files : List SourceFile) :
    LeavesOut files (p.outcome files) (p.outcome (files.filter (·.takesPart))) := by
  rw [outcome_filter]
  cases h : p.outcome files with
  | error e => exact .failed e
  | ok summary =>
    have haccounts := (reports_of_outcome h).imp fun _ _ => FileSummary.Reports.accounts
    rw [Except.map, sift_eq_of_accounts haccounts]
    exact .finished summary haccounts

/-! ## Runs over a file tree -/

/-- The file at a path. -/
def fileAt (tree : FileTree) (here : Place) (parserOf : String → Parser) (path : String) :
    SourceFile :=
  ⟨path, tree.readText here path, parserOf path⟩

theorem filesAt_filter (tree : FileTree) (here : Place) (parserOf : String → Parser)
    (paths : List String) :
    (filesAt tree here parserOf paths).filter (·.takesPart) =
      filesAt tree here parserOf
        (paths.filter fun path => (fileAt tree here parserOf path).takesPart) := by
  rw [filesAt, filesAt, List.filter_map]
  rfl

/-- Saving a file changes its status only. -/
theorem save_fst (tree : FileTree) (here : Place) (summary : FileSummary) :
    (save tree here summary).1 =
      { summary with status := (save tree here summary).1.status } := by
  rw [save]
  split
  · rfl
  · split <;> rfl

theorem save_of_abandoned {file : SourceFile} {summary : FileSummary} (tree : FileTree)
    (here : Place) (h : summary.Accounts file) (takes : file.takesPart = false) :
    save tree here summary = (summary, tree) := by
  rw [save, h.edited takes]

theorem isAbandoned_save {file : SourceFile} {summary : FileSummary} (tree : FileTree)
    (here : Place) (h : summary.Accounts file) :
    (save tree here summary).1.status.isAbandoned = summary.status.isAbandoned := by
  cases takes : file.takesPart with
  | false => rw [save_of_abandoned tree here h takes]
  | true =>
    have hstatus := h.isAbandoned
    rw [takes] at hstatus
    rw [save]
    split
    · rfl
    · split
      · rfl
      · exact hstatus.symm
      · exact hstatus.symm

theorem accounts_save {file : SourceFile} {summary : FileSummary} (tree : FileTree) (here : Place)
    (h : summary.Accounts file) : (save tree here summary).1.Accounts file := by
  have hstatus := (isAbandoned_save tree here h).trans h.isAbandoned
  rw [save_fst] at hstatus ⊢
  exact ⟨h.path, hstatus, h.edits, h.output, h.edited⟩

theorem accounts_saveAll (here : Place) : ∀ {files : List SourceFile}
    {summaries : List FileSummary} (tree : FileTree),
    List.Forall₂ FileSummary.Accounts files summaries →
      List.Forall₂ FileSummary.Accounts files (saveAll here tree summaries).1
  | _, _, _, .nil => .nil
  | _, _, tree, .cons h hs => .cons (accounts_save tree here h) (accounts_saveAll here _ hs)

/-- **Saving the files that took part** is all the saving there is. -/
theorem saveAll_sift (here : Place) : ∀ {files : List SourceFile} {summaries : List FileSummary}
    (tree : FileTree), List.Forall₂ FileSummary.Accounts files summaries →
      saveAll here tree (FileSummary.sift summaries) =
        (FileSummary.sift (saveAll here tree summaries).1, (saveAll here tree summaries).2)
  | _, _, _, .nil => rfl
  | file :: _, summary :: summaries, tree, .cons h hs => by
      have hrest := saveAll_sift here (save tree here summary).2 hs
      have hstatus := isAbandoned_save tree here h
      rw [FileSummary.sift] at hrest
      rw [saveAll, FileSummary.sift, FileSummary.sift, List.filter_cons, List.filter_cons, hstatus,
        h.isAbandoned, Bool.not_not]
      cases takes : file.takesPart with
      | true =>
        show saveAll here tree (summary :: summaries.filter _) = _
        rw [saveAll]
        dsimp only
        rw [hrest]
        rfl
      | false =>
        rw [save_of_abandoned tree here h takes] at hrest ⊢
        exact hrest

theorem leavesOut_runPaths (p : Pipeline) (tree : FileTree) (here : Place)
    (parserOf : String → Parser) (paths : List String) :
    let all := p.runPaths tree here parserOf paths
    let taking := p.runPaths tree here parserOf
      (paths.filter fun path => (fileAt tree here parserOf path).takesPart)
    LeavesOut (filesAt tree here parserOf paths) all.result taking.result ∧
      taking.pipeline = all.pipeline ∧ taking.tree = all.tree := by
  dsimp only
  rw [runPaths_eq, runPaths_eq, ← filesAt_filter, outcome_filter]
  cases h : p.outcome (filesAt tree here parserOf paths) with
  | error e => exact ⟨.failed e, rfl, rfl⟩
  | ok summary =>
    have haccounts := (reports_of_outcome h).imp fun _ _ => FileSummary.Reports.accounts
    rw [Except.map]
    dsimp only
    split
    · rw [sift_eq_of_accounts haccounts]
      exact ⟨.finished summary haccounts, rfl, rfl⟩
    · have haccounts' := accounts_saveAll here tree haccounts
      rw [saveAll_sift here tree haccounts, sift_eq_of_accounts haccounts']
      exact ⟨.finished { summary with files := (saveAll here tree summary.files).1 } haccounts',
        rfl, rfl⟩

/-- **Abandoned files do not interfere.**  Over texts and over paths, whatever the passes: a run
and the run without the abandoned files fail alike, or the second has the same numbers and just the
summaries of the files that take part; both leave the pipeline at the same stage and the file tree
as the other does; and the summary of an abandoned file has no edit and the text as it was. -/
theorem leavesOut_abandoned (p : Pipeline) (tree : FileTree) (here : Place)
    (parserOf : String → Parser) (files : List SourceFile) (paths : List String) :
    (LeavesOut files (p.perform files).1 (p.perform (files.filter (·.takesPart))).1 ∧
      (p.perform (files.filter (·.takesPart))).2 = (p.perform files).2) ∧
    let all := p.runPaths tree here parserOf paths
    let taking := p.runPaths tree here parserOf
      (paths.filter fun path => (fileAt tree here parserOf path).takesPart)
    LeavesOut (filesAt tree here parserOf paths) all.result taking.result ∧
      taking.pipeline = all.pipeline ∧ taking.tree = all.tree := by
  refine ⟨⟨?_, ?_⟩, leavesOut_runPaths p tree here parserOf paths⟩
  · rw [perform_eq, perform_eq]
    exact leavesOut_outcome p files
  · rw [perform_eq, perform_eq, outcome_filter]
    cases p.outcome files with
    | error e => rfl
    | ok summary => rfl

end Pipeline

end ProbeWeaver
