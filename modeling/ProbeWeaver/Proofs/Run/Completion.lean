import Mathlib.Data.List.Forall2
import ProbeWeaver.Proofs.Edit.Arrivals
import ProbeWeaver.Proofs.Passes.Insertive
import ProbeWeaver.Run.Pipeline

/-!
# Proofs/Run/Completion — a run of the configured passes always comes to its end

Insertions are never refused and insertive rules never fail, so a run over trees whose spans lie on
character boundaries goes through all its stages, skips no match, and leaves texts that are woven
into their sources.

* `Pipeline.exists_perform` — the run of the passes that a configuration selects.
-/

namespace ProbeWeaver

open Text Edit

variable {α β : Type} {t : Tree} {source : String} {pass : Pass}

/-! ## Trees over a text -/

/-- **The spans of the tree** start and end between characters of the text. -/
def Tree.SpansFit (t : Tree) (source : String) : Prop :=
  ∀ n ∈ (Node.root t).walk, IsBoundary source n.start ∧ IsBoundary source n.stop

instance (t : Tree) (source : String) : Decidable (t.SpansFit source) :=
  inferInstanceAs (Decidable (∀ n ∈ (Node.root t).walk, _))

/-- An insertion at an edge of the tree is one between characters. -/
theorem Edit.InsertsAtEdge.isBoundary {e : Edit} (h : e.InsertsAtEdge t) (ht : t.SpansFit source) :
    IsBoundary source e.offset := by
  rcases h.2 with hzero | ⟨n, hn, hstart | hstop⟩
  · rw [hzero]
    exact isBoundary_zero source
  · rw [hstart]
    exact (ht n hn.mem_walk).1
  · rw [hstop]
    exact (ht n hn.mem_walk).2

/-! ## A file in the run -/

/-- **A file on its way through the run**: still the text and the tree it came with, nothing but
insertions accepted, and no match skipped. -/
structure ParsedFile.Intact (file : ParsedFile) (origin : SourceFile) (t : Tree) : Prop where
  path : file.unit.path = origin.path
  text : origin.text = .ok file.unit.source
  root : file.unit.root = .root t
  spans : t.SpansFit file.unit.source
  fits : Fits file.unit.source file.edits.entries
  inserts : InsertsOnly file.edits.entries
  skipped : file.skipped = 0

namespace ParsedFile

variable {file : ParsedFile} {origin : SourceFile}

/-- Insertions at edges are all accepted. -/
theorem exists_addAll (ht : t.SpansFit source) {edits : List Edit} {set : EditSet}
    (hfits : Fits source set.entries) (hins : InsertsOnly set.entries)
    (hedges : ∀ e ∈ edits, e.InsertsAtEdge t) :
    ∃ set', addAll source set edits = .ok set' ∧ Fits source set'.entries ∧
      InsertsOnly set'.entries :=
  exists_addAll_insertions hfits hins fun e he => ⟨(hedges e he).1, (hedges e he).isBoundary ht⟩

/-- The visit is of an insertive rule, at a match that has what the rule needs. -/
def Admits (t : Tree) (v : Visit) : Prop :=
  v.rule.Insertive ∧ v.found.Within t ∧ v.found.Has v.rule.binds

/-- **Visits of insertive rules** neither fail nor end the run. -/
theorem exists_visitAll (pass : Pass) : ∀ {vs : List Visit} (file : ParsedFile)
    (numbering : Numbering), file.Intact origin t → (∀ v ∈ vs, Admits t v) →
      ∃ file' numbering', visitAll pass file numbering vs = .ok (file', numbering') ∧
        file'.Intact origin t
  | [], file, numbering, h, _ => ⟨file, numbering, rfl, h⟩
  | v :: vs, file, numbering, h, hvs => by
      obtain ⟨hrule, hwithin, hhas⟩ := hvs v List.mem_cons_self
      obtain ⟨edits, numbering₁, hedits, hedges⟩ :=
        hrule.exists_editsOf ⟨file.unit, file.edits⟩ hwithin hhas numbering
      obtain ⟨set, hadd, hfits, hins⟩ := exists_addAll h.spans h.fits h.inserts hedges
      obtain ⟨file', numbering', hrest, h'⟩ := exists_visitAll pass { file with edits := set }
        numbering₁ ⟨h.path, h.text, h.root, h.spans, hfits, hins, h.skipped⟩
        fun w hw => hvs w (List.mem_cons_of_mem v hw)
      refine ⟨file', numbering', ?_, h'⟩
      rw [visitAll, hedits]
      dsimp only
      rw [hadd]
      exact hrest

/-- **One phase of an insertive pass** over a file. -/
theorem exists_runOn (hpass : pass.Insertive) (h : file.Intact origin t) (phase : Phase)
    (numbering : Numbering) :
    ∃ file' numbering', file.runOn pass phase numbering = .ok (file', numbering') ∧
      file'.Intact origin t := by
  obtain ⟨vs, hvs⟩ := hpass.exists_visits h.root phase
  rw [runOn, hvs]
  refine exists_visitAll pass file numbering h fun v hv => ?_
  obtain ⟨hrule, ms, hms, hfound⟩ := Pass.mem_visits hvs hv
  obtain ⟨ms', hms', hmatches⟩ := (hpass.of_mem_rules hrule).exists_matchesIn h.root
  obtain rfl := Except.ok.inj (hms.symm.trans hms')
  exact ⟨hpass.of_mem_rules hrule, hmatches v.found hfound⟩

end ParsedFile

/-! ## The files of a run -/

/-- A slot of the run that belongs to a file: intact, or left out with the text of the file. -/
def FileSlot.Intact (origin : SourceFile) : FileSlot → Prop
  | .parsed file => ∃ t, file.Intact origin t
  | .abandoned path source _ => path = origin.path ∧ ∀ text, origin.text = .ok text → source = text

/-- **The parser's trees fit the text** of the file, if it could be read. -/
def SourceFile.SpansFit (file : SourceFile) : Prop :=
  ∀ text, file.text = .ok text → (file.parse text).SpansFit text

/-- A file by itself. -/
theorem SourceFile.spansFit_singleton {path text : String} {parse : Parser}
    (h : (parse text).SpansFit text) : ∀ file ∈ [(⟨path, .ok text, parse⟩ : SourceFile)],
      file.SpansFit := by
  intro file hfile text' htext
  obtain rfl := List.mem_singleton.mp hfile
  obtain rfl := Except.ok.inj htext
  exact h

/-- **What a summary owes to its file**: the path, the text, no skipped match, and an edited text
that is woven into the source. -/
structure FileSummary.Completes (origin : SourceFile) (summary : FileSummary) : Prop where
  path : summary.path = origin.path
  source : ∀ text, origin.text = .ok text → summary.source = text
  skipped : summary.skipped = 0
  woven : Text.IsWovenInto summary.source summary.output

/-- A text is woven into itself. -/
theorem Text.isWovenInto_self (source : String) : Text.IsWovenInto source source :=
  ⟨[], source, by rfl, by rfl⟩

namespace FileSlot

theorem intact_slot {origin : SourceFile} (h : origin.SpansFit) : origin.slot.Intact origin := by
  rw [SourceFile.slot]
  split
  · next cause hcause => exact ⟨rfl, fun text htext => by rw [hcause] at htext; exact nomatch htext⟩
  · next text htext =>
    split
    · next unit hunit =>
      rw [SourceUnit.ofTree?] at hunit
      split at hunit
      · obtain rfl := Except.ok.inj hunit
        exact ⟨origin.parse text, rfl, htext, rfl, h text htext, fits_nil text,
          fun _ he => absurd he List.not_mem_nil, rfl⟩
      · exact nomatch hunit
    · next cause hcause =>
      refine ⟨rfl, fun text' htext' => ?_⟩
      rw [htext] at htext'
      exact Except.ok.inj htext'

/-- One phase of an insertive pass over all files. -/
theorem exists_runOnAt (hpass : pass.Insertive) (phase : Phase) :
    ∀ {origins : List SourceFile} {slots : List FileSlot} (numbering : Numbering),
      List.Forall₂ Intact origins slots →
        ∃ slots' numbering', runOnAt pass phase slots numbering = .ok (slots', numbering') ∧
          List.Forall₂ Intact origins slots'
  | _, _, numbering, .nil => ⟨[], numbering, rfl, .nil⟩
  | _, .abandoned path source cause :: slots, numbering, .cons h hs => by
      obtain ⟨slots', numbering', hrest, hs'⟩ := exists_runOnAt hpass phase numbering hs
      exact ⟨_, _, bind_eq_ok_iff.mpr ⟨_, hrest, rfl⟩, .cons h hs'⟩
  | _, .parsed file :: slots, numbering, .cons ⟨t, h⟩ hs => by
      obtain ⟨file', numbering₁, hfile, h'⟩ := ParsedFile.exists_runOn hpass h phase numbering
      obtain ⟨slots', numbering₂, hrest, hs'⟩ := exists_runOnAt hpass phase numbering₁ hs
      refine ⟨.parsed file' :: slots', numbering₂, ?_, .cons ⟨t, h'⟩ hs'⟩
      exact bind_eq_ok_iff.mpr ⟨_, hfile, bind_eq_ok_iff.mpr ⟨_, hrest, rfl⟩⟩

/-- **An insertive pass over all files** gets through. -/
theorem exists_runOn (hpass : pass.Insertive) {origins : List SourceFile} {slots : List FileSlot}
    (numbering : Numbering) (h : List.Forall₂ Intact origins slots) :
    ∃ slots' numbering', runOn pass slots numbering = .ok (slots', numbering') ∧
      List.Forall₂ Intact origins slots' := by
  obtain ⟨slots₁, numbering₁, hfirst, h₁⟩ := exists_runOnAt hpass .traversal numbering h
  obtain ⟨slots₂, numbering₂, hlate, h₂⟩ := exists_runOnAt hpass .late numbering₁ h₁
  exact ⟨slots₂, numbering₂, bind_eq_ok_iff.mpr ⟨_, hfirst, hlate⟩, h₂⟩

/-- **A file that came through the passes** is finished as it should be. -/
theorem exists_finish (validateOutput : Bool) {origin : SourceFile} {slot : FileSlot}
    (h : slot.Intact origin) :
    ∃ summary, slot.finish validateOutput = .ok summary ∧ summary.Completes origin := by
  cases slot with
  | abandoned path source cause =>
    exact ⟨_, rfl, h.1, h.2, rfl, Text.isWovenInto_self source⟩
  | parsed file =>
    obtain ⟨t, h⟩ := h
    refine ⟨_, by rw [finish, ParsedFile.finish, EditSet.apply, applyAll_eq_ok h.fits], ?_⟩
    refine ⟨h.path, fun text htext => ?_, h.skipped, ?_⟩
    · rw [h.text] at htext
      exact Except.ok.inj htext
    · rw [FileSummary.output]
      dsimp only
      split
      · exact h.inserts.isWovenInto h.fits
      · exact Text.isWovenInto_self _

theorem exists_finishAll (validateOutput : Bool) :
    ∀ {origins : List SourceFile} {slots : List FileSlot}, List.Forall₂ Intact origins slots →
      ∃ summaries, finishAll validateOutput slots = .ok summaries ∧
        List.Forall₂ FileSummary.Completes origins summaries
  | _, _, .nil => ⟨[], rfl, .nil⟩
  | _, _ :: _, .cons h hs => by
      obtain ⟨summary, hsummary, hcompletes⟩ := exists_finish validateOutput h
      obtain ⟨summaries, hrest, hcompletesAll⟩ := exists_finishAll validateOutput hs
      exact ⟨_, bind_eq_ok_iff.mpr ⟨_, hsummary, bind_eq_ok_iff.mpr ⟨_, hrest, rfl⟩⟩,
        .cons hcompletes hcompletesAll⟩

end FileSlot

/-! ## The stages -/

namespace RunM

variable {x : RunM α} {f : α → RunM β} {a : α} {b : β} {stage stage' stage'' : RunStage}

/-- **The step succeeds** with a value and goes from one stage to another. -/
def Goes (x : RunM α) (stage : RunStage) (a : α) (stage' : RunStage) : Prop :=
  x.run.run stage = (.ok a, stage')

theorem goes_pure (a : α) (stage : RunStage) : Goes (pure a) stage a stage := rfl

theorem Goes.bind (hx : Goes x stage a stage') (hf : Goes (f a) stage' b stage'') :
    Goes (x >>= f) stage b stage'' := by
  rw [Goes, ExceptT.run_bind, StateT.run_bind, hx]
  exact hf

theorem goes_advance (h : stage.allowsNext stage' = true) :
    Goes (advance stage') stage () stage' := by
  show (if stage.allowsNext stage' then set stage' else throw _ : RunM Unit).run.run stage = _
  rw [if_pos h]
  rfl

theorem goes_orFail (a : α) (stage : RunStage) : Goes (orFail (.ok a)) stage a stage := rfl

/-- **Insertive passes take a run** from a stage that lets them begin to one that lets it apply the
edits. -/
theorem exists_passesFrom : ∀ {passes : List Pass} {i : Nat} {origins : List SourceFile}
    {slots : List FileSlot} (numbering : Numbering) (stage : RunStage),
    (∀ p ∈ passes, p.Insertive) → List.Forall₂ FileSlot.Intact origins slots →
      stage.allowsNext (.pass i) = true → stage.allowsNext .applying = true →
        ∃ slots' numbering' stage', Goes (passesFrom i passes slots numbering) stage
          (slots', numbering') stage' ∧ List.Forall₂ FileSlot.Intact origins slots' ∧
            stage'.allowsNext .applying = true
  | [], _, _, slots, numbering, stage, _, hslots, _, happly =>
      ⟨slots, numbering, stage, goes_pure _ stage, hslots, happly⟩
  | pass :: passes, i, _, slots, numbering, stage, hpasses, hslots, hpass, _ => by
      obtain ⟨slots₁, numbering₁, hrun, hslots₁⟩ :=
        FileSlot.exists_runOn (hpasses pass List.mem_cons_self) numbering hslots
      obtain ⟨slots₂, numbering₂, stage', hrest, hslots₂, happly'⟩ :=
        exists_passesFrom numbering₁ (.pass i)
          (fun p hp => hpasses p (List.mem_cons_of_mem pass hp)) hslots₁
          (beq_self_eq_true (i + 1)) rfl
      refine ⟨slots₂, numbering₂, stage', ?_, hslots₂, happly'⟩
      rw [passesFrom, hrun]
      exact (goes_advance hpass).bind ((goes_orFail _ _).bind hrest)

end RunM

/-! ## The run -/

namespace Pipeline

theorem insertive_build (config : RunSettings) (validateOutput dryRun : Bool) :
    ∀ p ∈ (build config.selectedPasses validateOutput dryRun).passes, p.Insertive := by
  intro p hp
  rcases mem_passes_build hp with rfl | hp
  · exact Pass.insertive_ofKind config .braces
  · obtain ⟨kind, -, rfl⟩ := List.mem_map.mp hp
    exact Pass.insertive_ofKind config kind

/-- **A run of insertive passes** comes to its end, and its summary completes every file. -/
theorem exists_perform_of_insertive (p : Pipeline) (hp : ∀ pass ∈ p.passes, pass.Insertive)
    {files : List SourceFile} (hfiles : ∀ file ∈ files, file.SpansFit) :
    ∃ summary, (p.perform files).1 = .ok summary ∧ (p.perform files).2.stage = .done ∧
      List.Forall₂ FileSummary.Completes files summary.files := by
  have hslots : List.Forall₂ FileSlot.Intact files (files.map (·.slot)) := by
    rw [List.forall₂_map_right_iff, List.forall₂_same]
    exact fun file hfile => FileSlot.intact_slot (hfiles file hfile)
  obtain ⟨slots, numbering, stage, hpasses, hslots', happly⟩ :=
    RunM.exists_passesFrom (i := 0) {} .parsing hp hslots rfl rfl
  obtain ⟨summaries, hfinish, hcompletes⟩ := FileSlot.exists_finishAll p.validateOutput hslots'
  have hsteps : RunM.Goes (p.steps files) .idle ⟨summaries, numbering, p.passNames⟩ .done := by
    refine (RunM.goes_advance rfl).bind (hpasses.bind ((RunM.goes_advance happly).bind ?_))
    rw [hfinish]
    exact (RunM.goes_orFail _ _).bind ((RunM.goes_advance rfl).bind (RunM.goes_pure _ _))
  have hrun : (p.steps files).run.run .idle = (.ok ⟨summaries, numbering, p.passNames⟩, .done) :=
    hsteps
  refine ⟨⟨summaries, numbering, p.passNames⟩, ?_, ?_, hcompletes⟩
  · rw [perform, hrun]
  · rw [perform, hrun]

/-- **A run of the configured passes never aborts and only inserts.**  Whatever the configuration
and the files, as long as the parser's spans fit the texts: the run succeeds and is done, and the
summary has for every file its text, no skipped match, and an edited text that the insertions weave
into the source. -/
theorem exists_perform (config : RunSettings) (validateOutput dryRun : Bool)
    (files : List SourceFile) (hfiles : ∀ file ∈ files, file.SpansFit) :
    ∃ summary,
      ((build config.selectedPasses validateOutput dryRun).perform files).1 = .ok summary ∧
        ((build config.selectedPasses validateOutput dryRun).perform files).2.stage = .done ∧
          List.Forall₂ FileSummary.Completes files summary.files :=
  exists_perform_of_insertive _ (insertive_build config validateOutput dryRun) hfiles

/-- The file of a function with a loop over one call. -/
def loopFile : SourceFile where
  path := "loop.c"
  text := .ok "void f() \x7bfor(;;)g();\x7d"
  parse _ :=
    .node .sourceUnit none ⟨0, 22⟩ false
      [.node .functionDefinition none ⟨0, 22⟩ false
        [.node (.other "primitive_type") (some .type) ⟨0, 4⟩ false [],
          .node .functionDeclarator (some .declarator) ⟨5, 8⟩ false
            [.node .identifier (some .declarator) ⟨5, 6⟩ false [],
              .node (.other "parameter_list") (some .parameters) ⟨6, 8⟩ false
                [.node (.token "(") none ⟨6, 7⟩ false [], .node (.token ")") none ⟨7, 8⟩ false []]],
          .node .compoundStatement (some .body) ⟨9, 22⟩ false
            [.node (.token "\x7b") none ⟨9, 10⟩ false [],
              .node .forStatement none ⟨10, 21⟩ false
                [.node (.token "for") none ⟨10, 13⟩ false [],
                  .node (.token "(") none ⟨13, 14⟩ false [],
                  .node (.token ";") none ⟨14, 15⟩ false [],
                  .node (.token ";") none ⟨15, 16⟩ false [],
                  .node (.token ")") none ⟨16, 17⟩ false [],
                  .node .expressionStatement (some .body) ⟨17, 21⟩ false
                    [.node .callExpression none ⟨17, 20⟩ false
                      [.node .identifier (some .function) ⟨17, 18⟩ false [],
                        .node (.other "argument_list") (some (.other "arguments")) ⟨18, 20⟩ false
                          [.node (.token "(") none ⟨18, 19⟩ false [],
                            .node (.token ")") none ⟨19, 20⟩ false []]],
                      .node (.token ";") none ⟨20, 21⟩ false []]],
              .node (.token "\x7d") none ⟨21, 22⟩ false []]]]

/-- The loop, run with the default passes. -/
theorem exists_perform_loop :
    ∃ summary,
      ((build (RunSettings.selectedPasses {}) false true).perform [loopFile]).1 = .ok summary ∧
        ((build (RunSettings.selectedPasses {}) false true).perform [loopFile]).2.stage = .done ∧
          List.Forall₂ FileSummary.Completes [loopFile] summary.files := by
  refine exists_perform {} false true [loopFile] fun file hfile text htext => ?_
  obtain rfl := List.mem_singleton.mp hfile
  obtain rfl := Except.ok.inj htext
  decide

/-! ## Runs over a file tree -/

/-- Writing a file back changes its outcome only. -/
theorem completes_save {origin : SourceFile} {summary : FileSummary} (tree : FileTree)
    (here : Place) (h : summary.Completes origin) :
    (save tree here summary).1.Completes origin := by
  rw [save]
  split
  · exact h
  · split
    · exact h
    · exact ⟨h.path, h.source, h.skipped, h.woven⟩
    · exact ⟨h.path, h.source, h.skipped, h.woven⟩

theorem completes_saveAll (here : Place) : ∀ {origins : List SourceFile}
    {summaries : List FileSummary} (tree : FileTree),
    List.Forall₂ FileSummary.Completes origins summaries →
      List.Forall₂ FileSummary.Completes origins (saveAll here tree summaries).1
  | _, _, _, .nil => .nil
  | _, _, tree, .cons h hs => .cons (completes_save tree here h) (completes_saveAll here _ hs)

/-- The files that a run over paths reads. -/
def filesAt (tree : FileTree) (here : Place) (parserOf : String → Parser) (paths : List String) :
    List SourceFile :=
  paths.map fun path => ⟨path, tree.readText here path, parserOf path⟩

/-- **A run over paths** comes to its end as well, dry or not. -/
theorem exists_runPaths (config : RunSettings) (validateOutput dryRun : Bool) (tree : FileTree)
    (here : Place) (parserOf : String → Parser) (paths : List String)
    (hfiles : ∀ file ∈ filesAt tree here parserOf paths, file.SpansFit) :
    ∃ summary, ∃ p : Pipeline, ∃ tree' : FileTree,
      runPaths (build config.selectedPasses validateOutput dryRun) tree here parserOf paths =
          ⟨.ok summary, p, tree'⟩ ∧ p.stage = .done ∧
        List.Forall₂ FileSummary.Completes (filesAt tree here parserOf paths) summary.files := by
  obtain ⟨summary, hresult, hstage, hcompletes⟩ :=
    exists_perform_of_insertive _ (insertive_build config validateOutput dryRun) hfiles
  cases hperform : (build config.selectedPasses validateOutput dryRun).perform
      (filesAt tree here parserOf paths) with
  | mk result p =>
    rw [hperform] at hresult hstage
    obtain rfl : result = .ok summary := hresult
    rw [filesAt] at hperform
    rw [runPaths, hperform]
    dsimp only
    split
    · exact ⟨summary, p, tree, rfl, hstage, hcompletes⟩
    · exact ⟨_, p, _, rfl, hstage, completes_saveAll here tree hcompletes⟩

end Pipeline

end ProbeWeaver
