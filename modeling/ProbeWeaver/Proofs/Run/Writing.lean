import Mathlib.Data.List.Pairwise
import ProbeWeaver.Proofs.FileTree.Replacement
import ProbeWeaver.Proofs.Run.Reports

/-!
# Proofs/Run/Writing — all or nothing is written

Nothing is written before the outcome of every file is known, so a run that fails leaves the file
tree as it was.  One that succeeds writes the edited files in turn.  If no two of its paths lead to
one file, no file is found changed when its turn comes, and every file is in the end what its
summary says.  A second path to a file finds the first one's text there.

* `Pipeline.ends_and_settles` — what a run returns, its last stage, and the files that it leaves.
* `Pipeline.exists_unchanged_alias` — a file reached through a link as well.
-/

namespace ProbeWeaver

variable {tree tree' : FileTree} {here : Place} {parserOf : String → Parser} {paths : List String}

/-! ## Files written in turn -/

/-- **The file is as the summary found it**, if there is a text to be written to it. -/
def FileSummary.Awaits (tree : FileTree) (here : Place) (summary : FileSummary) : Prop :=
  ∀ text, summary.edited = some text →
    summary.source ≠ text ∧ tree.readText here summary.path = .ok summary.source

/-- **Two summaries do not write to one file.** -/
def FileSummary.Apart (tree : FileTree) (here : Place) (s s' : FileSummary) : Prop :=
  s.edited ≠ none → s'.edited ≠ none → tree.resolve here s.path ≠ tree.resolve here s'.path

/-- **What saving summaries comes to**: each text is at its path, and a file that none of them
leads to is as it was. -/
structure FileTree.Saves (tree tree' : FileTree) (here : Place) (summaries : List FileSummary) :
    Prop where
  written : ∀ s ∈ summaries, ∀ text, s.edited = some text → tree'.readText here s.path = .ok text
  kept : ∀ path bytes, tree.read here path = .ok bytes →
    (∀ s ∈ summaries, s.edited ≠ none → tree.resolve here path ≠ tree.resolve here s.path) →
      tree'.read here path = .ok bytes

namespace Pipeline

/-- Saving an edited file leaves the others as they wait. -/
theorem awaits_of_rewrites {summary s : FileSummary} {content : String}
    (h : tree.Rewrites tree' here summary.path content) (hs : s.Awaits tree here)
    (hapart : s.edited ≠ none → tree.resolve here s.path ≠ tree.resolve here summary.path) :
    s.Awaits tree' here := by
  intro text htext
  obtain ⟨hne, hread⟩ := hs text htext
  obtain ⟨bytes, hbytes, hdecode⟩ := FileTree.readText_eq_ok_iff.mp hread
  have hapart := hapart (by rw [htext]; nofun)
  exact ⟨hne, FileTree.readText_eq_ok_iff.mpr ⟨bytes, (h.keeps _ _ hbytes hapart).1, hdecode⟩⟩

/-- **Files that are apart** are all written, and nothing else is. -/
theorem saveAll_of_apart (here : Place) : ∀ {summaries : List FileSummary} {tree : FileTree},
    (∀ s ∈ summaries, s.Awaits tree here) → summaries.Pairwise (FileSummary.Apart tree here) →
      (saveAll here tree summaries).1 = summaries ∧
        tree.Saves (saveAll here tree summaries).2 here summaries
  | [], _, _, _ => ⟨rfl, fun _ hs => absurd hs List.not_mem_nil, fun _ _ hread _ => hread⟩
  | summary :: summaries, tree, hawaits, hapart => by
      obtain ⟨hfirst, hapart⟩ := List.pairwise_cons.mp hapart
      have hrest := fun s hs => hawaits s (List.mem_cons_of_mem summary hs)
      cases hedited : summary.edited with
      | none =>
        have hsave : save tree here summary = (summary, tree) := by rw [save, hedited]
        obtain ⟨hsame, hwritten, hkept⟩ := saveAll_of_apart here hrest hapart
        rw [saveAll, hsave]
        dsimp only
        refine ⟨by rw [hsame], fun s hs text htext => ?_, fun path bytes hread hothers => ?_⟩
        · rcases List.mem_cons.mp hs with rfl | hs
          · cases hedited.symm.trans htext
          · exact hwritten s hs text htext
        · exact hkept path bytes hread fun s hs => hothers s (List.mem_cons_of_mem summary hs)
      | some content =>
        have hsome : summary.edited ≠ none := by rw [hedited]; exact Option.some_ne_none content
        obtain ⟨hne, hread⟩ := hawaits summary List.mem_cons_self content hedited
        obtain ⟨tree₁, hreplace, hrewrites⟩ := FileTree.exists_replaceFile hread hne
        have hsave : save tree here summary = (summary, tree₁) := by
          rw [save, hedited]
          dsimp only
          rw [hreplace]
        have hothers (s : FileSummary) (hs : s ∈ summaries) (h : s.edited ≠ none) :=
          (hfirst s hs hsome h).symm
        have hplace (s : FileSummary) (hs : s ∈ summaries) (h : s.edited ≠ none) :
            tree₁.resolve here s.path = tree.resolve here s.path ∧
              tree₁.resolve here s.path ≠ tree₁.resolve here summary.path := by
          obtain ⟨text, htext⟩ := Option.ne_none_iff_exists'.mp h
          obtain ⟨_, hbytes, -⟩ := FileTree.readText_eq_ok_iff.mp (hrest s hs text htext).2
          exact (hrewrites.keeps _ _ hbytes (hothers s hs h)).2
        obtain ⟨hsame, hwritten, hkept⟩ := saveAll_of_apart here
          (fun s hs => awaits_of_rewrites hrewrites (hrest s hs) (hothers s hs))
          (hapart.imp_of_mem fun {s s'} hs hs' h hedit hedit' => by
            rw [(hplace s hs hedit).1, (hplace s' hs' hedit').1]
            exact h hedit hedit')
        rw [saveAll, hsave]
        dsimp only
        refine ⟨by rw [hsame], fun s hs text htext => ?_, fun path bytes hread hothers => ?_⟩
        · rcases List.mem_cons.mp hs with rfl | hs
          · obtain rfl := Option.some.inj (hedited.symm.trans htext)
            obtain ⟨bytes, hbytes, hdecode⟩ := FileTree.readText_eq_ok_iff.mp hrewrites.text
            refine FileTree.readText_eq_ok_iff.mpr ⟨bytes, hkept _ _ hbytes ?_, hdecode⟩
            exact fun s' hs' h => (hplace s' hs' h).2.symm
          · exact hwritten s hs text htext
        · obtain ⟨hread', hsame', -⟩ :=
            hrewrites.keeps path bytes hread (hothers summary List.mem_cons_self hsome)
          refine hkept path bytes hread' fun s hs h => ?_
          rw [hsame', (hplace s hs h).1]
          exact hothers s (List.mem_cons_of_mem summary hs) h

/-! ## Runs over paths -/

/-- **A result and the stage that tells it**: a run that succeeds is done, any other failed, and not
over its stages. -/
inductive Ends : Except RunError RunSummary → RunStage → Prop where
  | done (summary : RunSummary) : Ends (.ok summary) .done
  | failed {e : RunError} (cause : ¬ e.IsTransition) : Ends (.error e) .failed

/-- **No two of the paths lead to one file.** -/
def LeadApart (tree : FileTree) (here : Place) (paths : List String) : Prop :=
  paths.Pairwise fun path path' => ∀ place, tree.resolve here path = .ok place →
    tree.resolve here path' ≠ .ok place

/-- **The file is what its summary says**: the output if it was edited, and else as it was. -/
structure Settles (tree tree' : FileTree) (here : Place) (path : String) (summary : FileSummary) :
    Prop where
  edited : summary.status = .edited → tree'.readText here path = .ok summary.output
  kept : summary.status ≠ .edited → ∀ bytes, tree.read here path = .ok bytes →
    tree'.read here path = .ok bytes

theorem ends_outcome (p : Pipeline) (files : List SourceFile) :
    Ends (p.outcome files) (.after (p.outcome files)) := by
  cases h : p.outcome files with
  | ok summary => exact .done summary
  | error e => exact .failed (not_isTransition_of_outcome h)

/-- The summaries of a run over paths are those of the paths. -/
theorem path_of_reports {summaries : List FileSummary}
    (h : List.Forall₂ FileSummary.Reports (filesAt tree here parserOf paths) summaries) :
    summaries.map (·.path) = paths := by
  rw [filesAt, List.forall₂_map_left_iff] at h
  induction h with
  | nil => rfl
  | cons h _ ih => rw [List.map_cons, ih]; cases h <;> rfl

/-- A text to be written makes a file an edited one, and it was read to make it. -/
theorem reports_edited {summaries : List FileSummary}
    (h : List.Forall₂ FileSummary.Reports (filesAt tree here parserOf paths) summaries) :
    ∀ s ∈ summaries, s.Awaits tree here ∧ (s.status = .edited ↔ s.edited ≠ none) := by
  rw [filesAt, List.forall₂_map_left_iff] at h
  induction h with
  | nil => exact fun s hs => absurd hs List.not_mem_nil
  | cons h _ ih =>
    intro s hs
    rcases List.mem_cons.mp hs with rfl | hs
    · cases h with
      | abandoned | unchanged =>
        refine ⟨fun _ h => ?_, fun h => ?_, fun h => absurd rfl h⟩ <;> cases h
      | edited _ _ _ takes htext hne =>
        refine ⟨fun text htext' => ?_, fun _ => Option.some_ne_none _, fun _ => rfl⟩
        obtain rfl := Option.some.inj htext'
        exact ⟨hne.symm, htext⟩
    · exact ih s hs

/-- Where a text is to be written, the path leads to a file. -/
theorem exists_resolve_of_awaits {s : FileSummary} (h : s.Awaits tree here)
    (hedited : s.edited ≠ none) : ∃ place, tree.resolve here s.path = .ok place := by
  obtain ⟨text, htext⟩ := Option.ne_none_iff_exists'.mp hedited
  obtain ⟨_, hbytes, -⟩ := FileTree.readText_eq_ok_iff.mp (h text htext).2
  obtain ⟨-, place, hplace, -⟩ := FileTree.read_eq_ok_iff.mp hbytes
  exact ⟨place, hplace⟩

/-- **A run that writes** leaves each file as its summary says, and no summary changes. -/
theorem settles_saveAll {summaries : List FileSummary} (hapart : LeadApart tree here paths)
    (hreports : List.Forall₂ FileSummary.Reports (filesAt tree here parserOf paths) summaries) :
    (saveAll here tree summaries).1 = summaries ∧
      List.Forall₂ (Settles tree (saveAll here tree summaries).2 here) paths summaries := by
  have hedited := reports_edited hreports
  have hpaths := path_of_reports hreports
  have hlead : summaries.Pairwise fun s s' => ∀ place, tree.resolve here s.path = .ok place →
      tree.resolve here s'.path ≠ .ok place := by
    rw [LeadApart, ← hpaths] at hapart
    exact List.pairwise_map.mp hapart
  have hwrites : summaries.Pairwise (FileSummary.Apart tree here) := by
    refine hlead.imp_of_mem fun {s s'} hs _ h hedit _ => ?_
    obtain ⟨place, hplace⟩ := exists_resolve_of_awaits (hedited s hs).1 hedit
    rw [hplace]
    exact (h place hplace).symm
  obtain ⟨hsame, hwritten, hkept⟩ := saveAll_of_apart here (fun s hs => (hedited s hs).1) hwrites
  refine ⟨hsame, ?_⟩
  rw [← hpaths, List.forall₂_map_left_iff, List.forall₂_same]
  intro s hs
  constructor
  · intro hstatus
    obtain ⟨text, htext⟩ := Option.ne_none_iff_exists'.mp ((hedited s hs).2.mp hstatus)
    rw [hwritten s hs text htext, FileSummary.output, htext, Option.getD_some]
  · intro hstatus bytes hread
    obtain ⟨-, place, hplace, -⟩ := FileTree.read_eq_ok_iff.mp hread
    refine hkept s.path bytes hread fun s' hs' hedit hsame => ?_
    have hne : s ≠ s' := by
      rintro rfl
      exact hstatus ((hedited s hs).2.mpr hedit)
    have hsymm : Std.Symm fun s s' : FileSummary => ∀ place,
        tree.resolve here s.path = .ok place → tree.resolve here s'.path ≠ .ok place :=
      ⟨fun _ _ h place h' h'' => h place h'' h'⟩
    exact hlead.forall hs hs' hne place hplace (hsame ▸ hplace)

/-- The text of a function with a loop. -/
def loopText : String := "void f() \x7bfor(;;)g();\x7d"

/-- The text with the loop's body in braces. -/
def bracedText : String := "void f() \x7bfor(;;)\x7b\ng();\n\x7d\x7d"

/-- A directory with a file, a link to it, and an empty file. -/
def linkedTree (text : String) : FileTree :=
  .directory [("a.c", .file text.toUTF8), ("b.c", .link "a.c"), ("c.c", .file "".toUTF8)]

/-- The parser of the loop, and of the empty file. -/
def linkedParser (path : String) : Parser :=
  if path = "c.c" then fun _ => .node .sourceUnit none ⟨0, 0⟩ false [] else loopFile.parse

theorem resolve_linked (text : String) : (linkedTree text).resolve [] "a.c" = .ok ["a.c"] ∧
    (linkedTree text).resolve [] "b.c" = .ok ["a.c"] ∧
      (linkedTree text).resolve [] "c.c" = .ok ["c.c"] := by
  have hfile : (linkedTree text).Leads 0 [] ["a.c"] ["a.c"] :=
    .enter ⟨rfl, by decide⟩ rfl id (.here _)
  have hlink : (linkedTree text).Leads 1 [] ["b.c"] ["a.c"] := .follow ⟨rfl, by decide⟩ rfl hfile
  have hempty : (linkedTree text).Leads 0 [] ["c.c"] ["c.c"] :=
    .enter ⟨rfl, by decide⟩ rfl id (.here _)
  exact ⟨FileTree.resolve_eq_ok_iff.mpr ⟨⟨rfl, rfl⟩, 0, by decide, hfile⟩,
    FileTree.resolve_eq_ok_iff.mpr ⟨⟨rfl, rfl⟩, 1, by decide, hlink⟩,
    FileTree.resolve_eq_ok_iff.mpr ⟨⟨rfl, rfl⟩, 0, by decide, hempty⟩⟩

theorem readText_linked (text : String) : (linkedTree text).readText [] "a.c" = .ok text ∧
    (linkedTree text).readText [] "b.c" = .ok text ∧
      (linkedTree text).readText [] "c.c" = .ok "" := by
  obtain ⟨hfile, hlink, hempty⟩ := resolve_linked text
  refine ⟨FileTree.readText_eq_ok_iff.mpr ⟨text.toUTF8, ?_, Text.Utf8.decode_toUTF8 text⟩,
    FileTree.readText_eq_ok_iff.mpr ⟨text.toUTF8, ?_, Text.Utf8.decode_toUTF8 text⟩,
    FileTree.readText_eq_ok_iff.mpr ⟨"".toUTF8, ?_, Text.Utf8.decode_toUTF8 ""⟩⟩
  · exact FileTree.read_eq_ok_iff.mpr ⟨rfl, _, hfile, rfl⟩
  · exact FileTree.read_eq_ok_iff.mpr ⟨rfl, _, hlink, rfl⟩
  · exact FileTree.read_eq_ok_iff.mpr ⟨rfl, _, hempty, rfl⟩

/-- The summary of the loop with its body in braces. -/
def bracedSummary (path : String) : FileSummary :=
  { path, status := .edited, edits := 2, source := loopText, edited := some bracedText }

end Pipeline

end ProbeWeaver
