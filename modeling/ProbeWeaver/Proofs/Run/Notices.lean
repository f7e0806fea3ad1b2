import ProbeWeaver.Proofs.Marker.Reading
import ProbeWeaver.Proofs.Passes.Notices
import ProbeWeaver.Proofs.Run.Outputs

/-!
# Proofs/Run/Notices — the markers in the outputs of a run

Every edit of a run announces notices, and it stands in the output of its file where it was made, so
each marker of the run is found there with the rest of the output behind it.

* `Pipeline.exists_notices` — the edits of a run, with their notices.
* `Pipeline.exists_markings_of_perform` — each marker is read back as it was written exactly when its
  fields hold no colon and no end of a comment.
-/

namespace ProbeWeaver

open Text RunState

variable {u : SourceUnit} {r : Rule} {m : Match} {cx : EditContext} {edit : Edit}
  {draws : List Draw} {text : String} {edits : List Edit} {file : FileSummary}
  {ns : List (Notice × Nat)} {n : Notice × Nat}

/-! ## Edits and their notices -/

/-- **The text of an edit announces notices.** -/
theorem Rule.Makes.exists_announces (h : r.Makes cx m edit draws) (hr : r.Listed) :
    ∃ ns, r.Announces cx.unit m edit.text ns := by
  obtain ⟨e, he, -, -, numbering, numbering', hrun, -⟩ := h
  obtain ⟨_, -, hannounced⟩ := hr.speaks e he cx m hrun
  exact hannounced edit.text rfl

/-- **An edit of a file with its notices**: the rule of a match that the file offers made it there,
between two characters. -/
structure Edit.IsAnnounced (edit : Edit) (u : SourceUnit) (r : Rule) (m : Match)
    (ns : List (Notice × Nat)) : Prop where
  listed : r.Listed
  offers : r.Offers u m
  filters : ∀ f ∈ r.filters, f m u = true
  announces : r.Announces u m edit.text ns
  boundary : IsBoundary u.source edit.offset

/-- **A run and its notices.**  Whatever the configuration and the files, as long as the parser's
spans fit the texts: the run succeeds, and each file that takes part comes out with edits that
announce notices about the matches that they were made for. -/
theorem Pipeline.exists_notices (config : RunSettings) (validateOutput dryRun : Bool)
    (files : List SourceFile) (hfiles : ∀ file ∈ files, file.SpansFit) :
    ∃ summary, ((build config.selectedPasses validateOutput dryRun).perform files).1 =
        .ok summary ∧
      ∀ (place : Nat) (u : SourceUnit), (files.map (·.unit?))[place]? = some (some u) →
        ∃ (file : FileSummary) (edits : List Edit), summary.files[place]? = some file ∧
          u.ComesOut edits file ∧
          ∀ edit ∈ edits, ∃ r m ns, edit.IsAnnounced u r m ns := by
  obtain ⟨summary, log, slots, hrun, hsteps, -, hcalls, hout⟩ :=
    exists_outputs config validateOutput dryRun files hfiles
  refine ⟨summary, hrun, fun place u hunit => ?_⟩
  obtain ⟨file, hfile, hcomes⟩ := hout place u hunit
  refine ⟨file, editsFor place log, hfile, hcomes, fun edit hedit => ?_⟩
  obtain ⟨ev, hev, rfl, hmade⟩ := exists_event_of_mem_editsFor hedit
  obtain ⟨v, t, accepted, draws, hcall, hmakes, -⟩ :=
    hsteps.exists_makes (units_start files ▸ hcalls) hev hmade
  have hcall := units_start files ▸ hcall
  obtain rfl := Option.some.inj (Option.some.inj (hunit.symm.trans hcall.unit))
  obtain ⟨hwithin, hhas⟩ := hcall.listed.insertive.of_offers hcall.root hcall.offers
  obtain ⟨ns, hannounces⟩ := hmakes.exists_announces hcall.listed
  have hfits := spansFit_units hfiles (List.mem_of_getElem? hunit) hcall.root
  exact ⟨_, _, ns, hcall.listed, hcall.offers, hcall.filters, hannounces,
    (hmakes.insertsAtEdge hcall.listed.insertive hwithin hhas).isBoundary hfits⟩

/-! ## Markers -/

namespace Notice

/-- What the marker of a notice is to say. -/
def marking (u : SourceUnit) (n : Notice × Nat) : Marking :=
  ⟨n.1.number? n.2, n.1.kind, n.1.fields u⟩

/-- The kinds of markers. -/
def kinds : List String :=
  ["BRACESTART", "BRACEEND", "INSERTIONSITE", "FUNCTIONENTER", "VARDECL", "VARREF_ASSIGN",
    "VARREF_POINTER", "VARREF_MEMORY", "VARREF_INTEGER", "VARREF_ARRAY", "VARREF_POINTERINDEX",
    "VARREF_INIT", "VARDECLHEAP", "VARREF_FREE"]

theorem kind_mem_kinds (n : Notice) : n.kind ∈ kinds := by
  cases n <;> simp [kind, kinds]

theorem isClean_kind (n : Notice) : IsClean n.kind := by
  have hkinds : ∀ k ∈ kinds, IsClean k := by decide
  exact hkinds _ n.kind_mem_kinds

end Notice

/-- A marker as it is written. -/
def Marking.spelled (marking : Marking) : String := marker marking.id marking.kind marking.fields

/-- The marker of a notice stands in its text. -/
theorem exists_noticeText_eq (hn : n ∈ ns) : ∃ before after,
    noticeText u ns = before ++ ((Notice.marking u n).spelled ++ after) := by
  obtain ⟨front, back, rfl⟩ := List.append_of_mem hn
  refine ⟨noticeText u front ++ n.1.lead, n.1.tail u n.2 ++ noticeText u back, ?_⟩
  rw [noticeText, List.map_append, List.map_cons, String.join_append, String.join_cons, Notice.text]
  simp only [String.append_assoc]
  rfl

/-- The notices of an announcement make up its text. -/
theorem Rule.Announces.exists_text_eq (h : r.Announces u m text ns) (hn : n ∈ ns) :
    ∃ before after, text = before ++ ((Notice.marking u n).spelled ++ after) := by
  cases h with
  | notices about => exact exists_noticeText_eq hn
  | unmarked known | closer id known | forwarding declares | heading form =>
    exact absurd hn List.not_mem_nil

/-- **The marker stands in the output** of a file with these edits: part of what is put at the offset,
between what stands before it and behind it. -/
structure SourceUnit.Marks (u : SourceUnit) (edits : List Edit) (output : String) (offset : Nat)
    (marking : Marking) (before after : String) : Prop where
  put : textAt edits offset = before ++ (marking.spelled ++ after)
  output : output = u.outputTo edits offset before ++
    (marking.spelled ++ u.outputFrom edits offset after)

/-- The markers of an edit stand where the edit is made. -/
theorem SourceUnit.ComesOut.exists_marks (h : u.ComesOut edits file) (hedit : edit ∈ edits)
    (hannounced : edit.IsAnnounced u r m ns) (hn : n ∈ ns) : ∃ before after,
      u.Marks edits file.output edit.offset (Notice.marking u n) before after := by
  obtain ⟨front, back, hput⟩ := exists_textAt_eq hedit
  obtain ⟨before, after, htext⟩ := hannounced.announces.exists_text_eq hn
  have hput : textAt edits edit.offset =
      front ++ before ++ ((Notice.marking u n).spelled ++ (after ++ back)) := by
    rw [hput, htext]
    simp only [String.append_assoc]
  exact ⟨_, _, hput, h.output_at hannounced.boundary hput⟩

namespace Pipeline

/-- **The markers of a run read back**, if nothing in their fields prevents it, and only then.
Whatever the configuration and the files, as long as the parser's spans fit the texts: the run
succeeds, every edit of every file announces its notices, and the marker of each notice stands in the
output.  From there on, it ends at the first end of a comment exactly when no field holds one, and
the number, the kind and the fields are read just as written exactly when no field holds a colon or
the end of a comment. -/
theorem exists_markings_of_perform (config : RunSettings) (validateOutput dryRun : Bool)
    (files : List SourceFile) (hfiles : ∀ file ∈ files, file.SpansFit) :
    ∃ summary, ((build config.selectedPasses validateOutput dryRun).perform files).1 =
        .ok summary ∧
      ∀ (place : Nat) (u : SourceUnit), (files.map (·.unit?))[place]? = some (some u) →
        ∃ (file : FileSummary) (edits : List Edit), summary.files[place]? = some file ∧
          u.ComesOut edits file ∧
            ∀ edit ∈ edits, ∃ r m ns, edit.IsAnnounced u r m ns ∧
              ∀ n ∈ ns, ∃ before after,
                u.Marks edits file.output edit.offset (Notice.marking u n) before after ∧
                  (Marking.body? ((Notice.marking u n).spelled ++
                      u.outputFrom edits edit.offset after) =
                    some (markerParts (n.1.number? n.2) n.1.kind (n.1.fields u)).toList ↔
                      ∀ f ∈ n.1.fields u, contains f "*/" = false) ∧
                  (Marking.read? ((Notice.marking u n).spelled ++
                      u.outputFrom edits edit.offset after) = some (Notice.marking u n) ↔
                    ∀ f ∈ n.1.fields u, IsClean f) := by
  obtain ⟨summary, hrun, hout⟩ := exists_notices config validateOutput dryRun files hfiles
  refine ⟨summary, hrun, fun place u hunit => ?_⟩
  obtain ⟨file, edits, hfile, hcomes, hedits⟩ := hout place u hunit
  refine ⟨file, edits, hfile, hcomes, fun edit hedit => ?_⟩
  obtain ⟨r, m, ns, hannounced⟩ := hedits edit hedit
  refine ⟨r, m, ns, hannounced, fun n hn => ?_⟩
  obtain ⟨before, after, hmarks⟩ := hcomes.exists_marks hedit hannounced hn
  exact ⟨before, after, hmarks, body?_marker_iff n.1.isClean_kind _,
    read?_marker_iff n.1.isClean_kind _⟩

/-! ## A comment in an operand -/

/-- A function that returns a sum, with a comment in the first operand. -/
def commentedText : String :=
  "int f(int a, int b) \x7b return (a/* the smaller of these */) + b; \x7d\n"

/-- The function as a file. -/
def commentedFile : SourceFile := ⟨"t.c", .ok commentedText, fun _ => forgedTree⟩

/-- The function as a unit. -/
def commentedUnit : SourceUnit :=
  ⟨"t.c", commentedText, .root forgedTree, NameTable.build commentedText (.root forgedTree)⟩

theorem spansFit_commented : ∀ file ∈ [commentedFile], file.SpansFit :=
  SourceFile.spansFit_singleton (by decide)

/-- The markers of the commented sum, with integers reported. -/
theorem exists_markings_of_commented :
    ∃ summary, ((build (RunSettings.selectedPasses { mode := some .integer }) false true).perform
        [commentedFile]).1 = .ok summary ∧
      ∃ (file : FileSummary) (edits : List Edit), summary.files[0]? = some file ∧
        commentedUnit.ComesOut edits file ∧
          ∀ edit ∈ edits, ∃ r m ns, edit.IsAnnounced commentedUnit r m ns ∧
            ∀ n ∈ ns, ∃ before after,
              commentedUnit.Marks edits file.output edit.offset (Notice.marking commentedUnit n)
                  before after ∧
                (Marking.body? ((Notice.marking commentedUnit n).spelled ++
                    commentedUnit.outputFrom edits edit.offset after) =
                  some (markerParts (n.1.number? n.2) n.1.kind (n.1.fields commentedUnit)).toList ↔
                    ∀ f ∈ n.1.fields commentedUnit, contains f "*/" = false) ∧
                (Marking.read? ((Notice.marking commentedUnit n).spelled ++
                    commentedUnit.outputFrom edits edit.offset after) =
                  some (Notice.marking commentedUnit n) ↔
                    ∀ f ∈ n.1.fields commentedUnit, IsClean f) := by
  obtain ⟨summary, hrun, hout⟩ := exists_markings_of_perform { mode := some .integer } false true
    [commentedFile] spansFit_commented
  exact ⟨summary, hrun, hout 0 commentedUnit rfl⟩

/-- What the marker of the sum is to say. -/
def commentedMarking : Marking :=
  ⟨some 0, "VARREF_INTEGER", ["int", "(a/* the smaller of these */)", "int", "b", "+"]⟩

/-- The marker of the sum and its probe. -/
def commentedReport : String :=
  commentedMarking.spelled ++ Probe.statement .int 0 "INT:0:%lld:%lld"
    ["(long long)((a/* the smaller of these */))", "(long long)(b)"]

/-- What the rule of integers makes of the file. -/
theorem matches_commented :
    (match Observation.integerRule.matchesIn commentedUnit with
      | .ok ms => ms.map fun m =>
        ((Observation.integerRule.editsOf ⟨commentedUnit, {}⟩ m).run {}).toOption
      | .error _ => []) =
      [some ([⟨22, 0, commentedReport⟩], (Numbering.next {} .int).2)] := by
  decide +kernel

/-- **A marker that ends early**: the operand of the sum is quoted with its comment, so the marker ends
with the comment, in the middle of its second field, and nothing is read from it. -/
theorem exists_unread_marker :
    SourceUnit.ofTree? "t.c" commentedText forgedTree = .ok commentedUnit ∧
      ∃ p ∈ (build [integerPass] false true).passes, ∃ vs v numbering,
        p.visits commentedUnit .traversal = .ok vs ∧ v ∈ vs ∧
          (v.rule.editsOf ⟨commentedUnit, {}⟩ v.found).run {} =
            .ok ([⟨22, 0, commentedReport⟩], numbering) ∧
              ∀ after, Marking.body? (commentedReport ++ after) =
                  some "0:VARREF_INTEGER:int:(a/* the smaller of these ".toList ∧
                Marking.read? (commentedReport ++ after) = none := by
  obtain ⟨vs, v, hvs, hv, hrun⟩ := exists_visit_of_made (t := forgedTree) rfl matches_commented
  refine ⟨rfl, integerPass, .tail _ (.head _), vs, v, _, hvs, hv, hrun, fun after => ?_⟩
  have hquiet : Quiet "*/" "0:VARREF_INTEGER:int:(a/* the smaller of these " :=
    quiet_of_clashes (by decide +kernel)
  have hcut : ∃ rest, commentedReport =
      "/*I:ID" ++ ("0:VARREF_INTEGER:int:(a/* the smaller of these " ++ "*/") ++ rest :=
    ⟨"):int:b:+:*/" ++ Probe.statement .int 0 "INT:0:%lld:%lld"
      ["(long long)((a/* the smaller of these */))", "(long long)(b)"], by decide +kernel⟩
  obtain ⟨rest, hrest⟩ := hcut
  have hbody : Marking.body? (commentedReport ++ after) =
      some "0:VARREF_INTEGER:int:(a/* the smaller of these ".toList := by
    rw [hrest, String.append_assoc]
    exact Marking.body?_of_quiet hquiet (rest ++ after)
  refine ⟨hbody, ?_⟩
  rw [Marking.read?, hbody]
  decide +kernel

end Pipeline

end ProbeWeaver
