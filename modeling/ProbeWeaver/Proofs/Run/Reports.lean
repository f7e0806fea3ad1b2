import ProbeWeaver.Proofs.Run.Stages

/-!
# Proofs/Run/Reports — what a summary says of its file, whatever the passes are

Passes change the edits of a file and count the matches they skip; the unit stays, and so does a
slot left out of the run.  So each file of a run that succeeds gets one summary, with its path and
its text, and in one of three forms (`FileSummary.Reports`).

* `Pipeline.reports_of_outcome` — the summaries of a run.
-/

namespace ProbeWeaver

variable {pass : Pass} {phase : Phase} {origin : SourceFile} {origins : List SourceFile}
  {slots slots' : List FileSlot} {numbering numbering' : Numbering}

/-- **The file takes part in a run**: it can be read, and its tree has no error. -/
def SourceFile.takesPart (file : SourceFile) : Bool :=
  match file.text with
  | .error _ => false
  | .ok text => (file.parse text).faults.isEmpty

/-- The text of the file, nothing if it cannot be read. -/
def SourceFile.content (file : SourceFile) : String := file.text.toOption.getD ""

/-! ## Slots -/

/-- **A slot of a file on its way through a run**: the same file parsed, or as it was at first. -/
inductive FileSlot.Follows (origin : SourceFile) : FileSlot → Prop where
  | parsed {file : ParsedFile} (takes : origin.takesPart = true)
      (path : file.unit.path = origin.path) (text : origin.text = .ok file.unit.source) :
      Follows origin (.parsed file)
  | abandoned (cause : AbandonCause) (takes : origin.takesPart = false) :
      Follows origin (.abandoned origin.path origin.content cause)

theorem SourceFile.follows_slot (file : SourceFile) : file.slot.Follows file := by
  rw [slot]
  split
  · next cause htext =>
    have htakes : file.takesPart = false := by rw [takesPart, htext]
    have hcontent : file.content = "" := by rw [content, htext]; rfl
    exact hcontent ▸ .abandoned (.unreadable cause) htakes
  · next text htext =>
    have hcontent : file.content = text := by rw [content, htext]; rfl
    have htakes : file.takesPart = (file.parse text).faults.isEmpty := by rw [takesPart, htext]
    rw [SourceUnit.ofTree?, syntaxFaults]
    cases hfaults : (file.parse text).faults with
    | nil => exact .parsed (by rw [htakes, hfaults]; rfl) rfl htext
    | cons fault faults =>
      exact hcontent ▸ .abandoned _ (by rw [htakes, hfaults]; rfl)

theorem ParsedFile.unit_of_visitAll : ∀ {vs : List Visit} {file file' : ParsedFile}
    {numbering : Numbering}, visitAll pass file numbering vs = .ok (file', numbering') →
      file'.unit = file.unit
  | [], _, _, _, h => by
      obtain ⟨rfl, -⟩ := Prod.mk.inj (Except.ok.inj h)
      rfl
  | v :: vs, file, _, _, h => by
      rw [visitAll] at h
      split at h
      · exact (unit_of_visitAll h).trans rfl
      · split at h
        · exact (unit_of_visitAll h).trans rfl
        · cases h

/-- **A pass leaves the unit of a file as it is.** -/
theorem ParsedFile.unit_of_runOn {file file' : ParsedFile}
    (h : file.runOn pass phase numbering = .ok (file', numbering')) : file'.unit = file.unit := by
  rw [runOn] at h
  split at h
  · exact unit_of_visitAll h
  · cases h

namespace FileSlot

theorem follows_of_runOnAt : ∀ {origins : List SourceFile} {slots slots' : List FileSlot}
    {numbering numbering' : Numbering}, List.Forall₂ Follows origins slots →
      runOnAt pass phase slots numbering = .ok (slots', numbering') →
        List.Forall₂ Follows origins slots'
  | _, _, _, _, _, .nil, h => by
      obtain ⟨rfl, -⟩ := Prod.mk.inj (Except.ok.inj h)
      exact .nil
  | _, _, _, _, _, .cons (.abandoned cause takes) hs, h => by
      obtain ⟨⟨_, _⟩, hrest, h⟩ := bind_eq_ok_iff.mp h
      obtain ⟨rfl, rfl⟩ := Prod.mk.inj (Except.ok.inj h)
      exact .cons (.abandoned cause takes) (follows_of_runOnAt hs hrest)
  | _, _, _, _, _, .cons (.parsed takes path text) hs, h => by
      obtain ⟨⟨file', _⟩, hfile, h⟩ := bind_eq_ok_iff.mp h
      obtain ⟨⟨_, _⟩, hrest, h⟩ := bind_eq_ok_iff.mp h
      obtain ⟨rfl, rfl⟩ := Prod.mk.inj (Except.ok.inj h)
      have hunit := ParsedFile.unit_of_runOn hfile
      exact .cons (.parsed takes (hunit ▸ path) (hunit ▸ text)) (follows_of_runOnAt hs hrest)

theorem follows_of_runAll : ∀ {passes : List Pass} {slots : List FileSlot} {numbering : Numbering},
    List.Forall₂ Follows origins slots → runAll passes slots numbering = .ok (slots', numbering') →
      List.Forall₂ Follows origins slots'
  | [], _, _, hs, h => by
      obtain ⟨rfl, -⟩ := Prod.mk.inj (Except.ok.inj h)
      exact hs
  | _ :: _, _, _, hs, h => by
      obtain ⟨_, hpass, hrest⟩ := bind_eq_ok_iff.mp h
      obtain ⟨_, hfirst, hlate⟩ := bind_eq_ok_iff.mp hpass
      exact follows_of_runAll (follows_of_runOnAt (follows_of_runOnAt hs hfirst) hlate) hrest

end FileSlot

/-! ## Summaries -/

/-- **A summary of a file**: left out with its text, unchanged, or edited to a different text. -/
inductive FileSummary.Reports (origin : SourceFile) : FileSummary → Prop where
  | abandoned (cause : AbandonCause) (takes : origin.takesPart = false) :
      Reports origin
        { path := origin.path, status := .abandoned cause, source := origin.content }
  | unchanged (edits skipped introduced : Nat) {text : String} (takes : origin.takesPart = true)
      (htext : origin.text = .ok text) :
      Reports origin
        { path := origin.path, status := .unchanged, edits, skipped, introduced, source := text }
  | edited (edits skipped introduced : Nat) {text output : String}
      (takes : origin.takesPart = true) (htext : origin.text = .ok text) (hne : output ≠ text) :
      Reports origin
        { path := origin.path, status := .edited, edits, skipped, introduced, source := text,
          edited := some output }

namespace FileSlot

variable {slot : FileSlot} {validateOutput : Bool}

theorem Follows.reports_of_finish {summary : FileSummary} (h : slot.Follows origin)
    (hfinish : slot.finish validateOutput = .ok summary) : summary.Reports origin := by
  cases h with
  | abandoned cause takes =>
    obtain rfl := Except.ok.inj hfinish
    exact .abandoned cause takes
  | @parsed file takes path text =>
    rw [finish, ParsedFile.finish] at hfinish
    dsimp only at hfinish
    split at hfinish
    · cases hfinish
    · next output _ =>
      obtain rfl := Except.ok.inj hfinish
      by_cases hne : output ≠ file.unit.source
      · rw [if_pos hne, if_pos hne, path]
        exact .edited _ _ _ takes text hne
      · rw [if_neg hne, if_neg hne, path]
        exact .unchanged _ _ _ takes text

theorem reports_of_finishAll : ∀ {origins : List SourceFile} {slots : List FileSlot}
    {summaries : List FileSummary}, List.Forall₂ Follows origins slots →
      finishAll validateOutput slots = .ok summaries →
        List.Forall₂ FileSummary.Reports origins summaries
  | _, _, _, .nil, h => by
      obtain rfl := Except.ok.inj h
      exact .nil
  | _, _, _, .cons hslot hs, h => by
      obtain ⟨_, hfinish, h⟩ := bind_eq_ok_iff.mp h
      obtain ⟨_, hrest, h⟩ := bind_eq_ok_iff.mp h
      obtain rfl := Except.ok.inj h
      exact .cons (hslot.reports_of_finish hfinish) (reports_of_finishAll hs hrest)

end FileSlot

/-- **Each file of a run gets its summary.** -/
theorem Pipeline.reports_of_outcome {p : Pipeline} {files : List SourceFile} {summary : RunSummary}
    (h : p.outcome files = .ok summary) :
    List.Forall₂ FileSummary.Reports files summary.files := by
  obtain ⟨_, hpasses, h⟩ := bind_eq_ok_iff.mp h
  obtain ⟨_, hfinish, h⟩ := bind_eq_ok_iff.mp h
  obtain rfl := Except.ok.inj h
  have hslots : List.Forall₂ FileSlot.Follows files (files.map (·.slot)) := by
    rw [List.forall₂_map_right_iff, List.forall₂_same]
    exact fun file _ => file.follows_slot
  exact FileSlot.reports_of_finishAll (FileSlot.follows_of_runAll hslots hpasses) hfinish

end ProbeWeaver
