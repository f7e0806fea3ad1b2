import ProbeWeaver.Proofs.Passes.Frees
import ProbeWeaver.Proofs.Run.Outputs

/-!
# Proofs/Run/Relocations — arrays moved and freed in a run

In a run that lists the stack-to-heap pass once, the edits of a file are those of the work that the
pass accounts for, among edits that were made with none of its numbers (`Pipeline.exists_works`).
What is freed before the returns agrees with what was moved (`Pipeline.exists_agree_of_perform`).
-/

namespace ProbeWeaver

open RunState

variable {t : Tree} {u : SourceUnit} {place : Nat} {e : Edit} {units : List (Option SourceUnit)}
  {log : List Event} {calls : List (Nat × Visit)}

/-- **An edit of another kind**: a rule made it with none of the numbers of the pass. -/
def Relocation.IsForeign (u : SourceUnit) (e : Edit) : Prop :=
  ∃ (r : Rule) (draws : List Draw), r.Produces u e.text draws ∧
    ∀ x ∈ draws, x.category ∉ PassKind.stackToHeap.categories

namespace RunState

/-- How the edits of an event were made. -/
theorem Steps.exists_made {s s' : RunState} (h : Steps s log s') {ev : Event} (hev : ev ∈ log) :
    ∃ file numbering numbering', s.units[ev.place]? = some (some (ParsedFile.unit file)) ∧
      (ev.visit.rule.editsOf ⟨file.unit, file.edits⟩ ev.visit.found).run numbering =
        .ok (ev.edits, numbering') := by
  induction h with
  | nil => exact absurd hev List.not_mem_nil
  | @cons s s' s'' first log step rest ih =>
    rcases List.mem_cons.mp hev with rfl | hev
    · obtain ⟨file, hslot, hmade⟩ := step.exists_made
      exact ⟨file, _, _, by rw [units, List.getElem?_map, hslot]; rfl, hmade⟩
    · rw [← step.units_eq]
      exact ih hev

namespace Ran

/-- **How an edit of a stretch came to be**: a rule that the stretch calls for the file made it, with
numbers that the rule draws. -/
theorem exists_produces (h : Ran units log calls) (hunit : units[place]? = some (some u))
    (he : e ∈ editsFor place log) : ∃ call ∈ calls, call.1 = place ∧ ∃ draws,
      call.2.rule.Produces u e.text draws ∧
        ∀ cs, call.2.rule.DrawsOf cs → ∀ x ∈ draws, x.category ∈ cs := by
  obtain ⟨ev, hev, rfl, hedit⟩ := exists_event_of_mem_editsFor he
  obtain ⟨s, s', hsteps, hunits⟩ := h.steps
  obtain ⟨v, t, accepted, draws, hcall, hmakes, -⟩ :=
    hsteps.exists_makes (hunits ▸ h.listed) hev hedit
  obtain rfl := Option.some.inj (Option.some.inj (hunit.symm.trans (hunits ▸ hcall.unit)))
  exact ⟨ev.call, h.calls ▸ List.mem_map_of_mem hev, rfl, draws, hmakes.produces,
    fun cs hdraws x hx => of_not_not fun hnot => Rule.Makes.not_mem_of_drawsOf hmakes hdraws hnot hx⟩

/-- **Rules that draw other numbers** make edits of another kind. -/
theorem isForeign (h : Ran units log calls)
    (hother : ∀ call ∈ calls, call.2.rule.DrawsOf PassKind.stackToHeap.foreign)
    (hunit : units[place]? = some (some u)) (he : e ∈ editsFor place log) :
    Relocation.IsForeign u e := by
  obtain ⟨call, hcall, -, draws, hproduces, hdraws⟩ := h.exists_produces hunit he
  refine ⟨call.2.rule, draws, hproduces, fun x hx hcategory => ?_⟩
  have hforeign := hdraws _ (hother call hcall) x hx
  rw [PassKind.foreign, List.mem_filter, decide_eq_true_iff] at hforeign
  exact hforeign.2 hcategory

/-- **The work of the pass** on its way through a file. -/
theorem exists_account {config : RelocationConfig}
    (h : Ran units log (callsFrom (Relocation.pass config) .traversal 0 units))
    (hunit : units[place]? = some (some u)) (hu : u.root = .root t) :
    ∃ works, editsFor place log = works.flatMap (Relocation.Work.edits u) ∧
      Relocation.Account config u works := by
  obtain ⟨s, s', hsteps, hunits⟩ := h.steps
  obtain ⟨vs, hvs⟩ : ∃ vs, (Relocation.pass config).visits u .traversal = .ok vs := by
    have hpass : (Relocation.pass config).Insertive :=
      Pass.insertive_ofKind { relocation := config } .stackToHeap
    exact hpass.exists_visits hu .traversal
  have hvisits := filter_of_calls (hunits ▸ h.calls) (hunits ▸ hunit)
  rw [Pass.visitsIn, hvs, show (Except.ok vs).toOption.getD [] = vs from rfl] at hvisits
  have hwork : ∀ ev ∈ log.filter (·.place == place), ∃ w : Relocation.Work,
      w.place = ev.visit.found.root ∧ w.IsDue (.of config) u ∧ ev.edits = w.edits u := by
    intro ev hev
    have hv : ev.visit ∈ vs := hvisits ▸ List.mem_map_of_mem hev
    obtain ⟨hev, hplace⟩ := List.mem_filter.mp hev
    obtain ⟨file, numbering, numbering', hfile, hmade⟩ := hsteps.exists_made hev
    rw [hunits, beq_iff_eq.mp hplace, hunit] at hfile
    obtain rfl := Option.some.inj (Option.some.inj hfile)
    obtain ⟨draws, -, hwork⟩ := Relocation.gives_work hu hvs hv file.edits hmade
    exact hwork
  obtain ⟨mine, hmine, hworks⟩ := exists_pairs_of_forall hwork
  refine ⟨mine.map Prod.snd, ?_, ?_⟩
  · rw [editsFor, ← hmine, List.flatMap_map, List.flatMap_map]
    exact List.flatMap_congr fun p hp => (hworks p hp).2.2
  · have hpairs := Relocation.account_of_visits (mine.map fun p => (p.1.visit, p.2)) hu hvs
      (by rw [List.map_map, ← hvisits, ← hmine, List.map_map]; rfl) fun p hp => by
        obtain ⟨q, hq, rfl⟩ := List.mem_map.mp hp
        exact ⟨(hworks q hq).1, (hworks q hq).2.1⟩
    rwa [List.map_map] at hpairs

end Ran

end RunState

namespace Pipeline

/-- The tree of a laid out file. -/
theorem exists_root_of_isLaidOut {files : List SourceFile}
    (hunit : (files.map (·.unit?))[place]? = some (some u)) (hlaid : u.root.tree.isLaidOut = true) :
    ∃ t, u.root = .root t ∧ t.isLaidOut = true := by
  obtain ⟨t, hu⟩ := isRooted_units files u (List.mem_of_getElem? hunit)
  rw [hu] at hlaid
  exact ⟨t, hu, hlaid⟩

/-- **The work of a run.**  Whatever the configuration, as long as it lists the stack-to-heap pass
once: the run succeeds, and each file comes out with the edits of the work that the pass accounts
for, among edits of other kinds. -/
theorem exists_works (config : RunSettings) (honce : config.passes.count .stackToHeap = 1)
    (validateOutput dryRun : Bool) (files : List SourceFile)
    (hfiles : ∀ file ∈ files, file.SpansFit) :
    ∃ summary, ((build config.selectedPasses validateOutput dryRun).perform files).1 =
        .ok summary ∧
      ∀ (place : Nat) (u : SourceUnit), (files.map (·.unit?))[place]? = some (some u) →
        ∃ (file : FileSummary) (works : List Relocation.Work) (pre post : List Edit),
          summary.files[place]? = some file ∧
            u.ComesOut (pre ++ (works.flatMap (Relocation.Work.edits u) ++ post)) file ∧
              Relocation.Account config.relocation u works ∧
                ∀ e ∈ pre ++ post, Relocation.IsForeign u e := by
  obtain ⟨front, back, hpasses, hothers, summary, before, mine, late, after, hrun, hbefore, hmine,
    hlate, hafter, -, hout⟩ := exists_stretches config (by decide : PassKind.stackToHeap ≠ .braces)
      honce validateOutput dryRun files hfiles
  refine ⟨summary, hrun, fun place u hunit => ?_⟩
  obtain ⟨file, hfile, hcomes⟩ := hout place u hunit
  obtain ⟨t, hu⟩ := isRooted_units files u (List.mem_of_getElem? hunit)
  obtain ⟨works, hworks, haccount⟩ := hmine.exists_account hunit hu
  have hother {passes : List Pass} (hpasses : ∀ p ∈ passes, p.IsOther .stackToHeap) :
      ∀ call ∈ schedule passes (files.map (·.unit?)),
        call.2.rule.DrawsOf PassKind.stackToHeap.foreign := fun call hcall =>
    (Pass.IsOther.of_mem_schedule hpasses rfl _ call hcall).2
  have hlines : ∀ call ∈ callsFrom (Pass.ofKind config .stackToHeap) .late 0
      (files.map (·.unit?)), call.2.rule.DrawsOf PassKind.stackToHeap.foreign :=
    fun _ => drawsOf_of_mem_callsFrom_late
  refine ⟨file, works, editsFor place before, editsFor place late ++ editsFor place after, hfile,
    hworks ▸ hcomes, haccount, fun e he => ?_⟩
  rcases List.mem_append.mp he with he | he
  · exact hbefore.isForeign (hother fun p hp => hothers p (List.mem_append_left _ hp)) hunit he
  · rcases List.mem_append.mp he with he | he
    · exact hlate.isForeign hlines hunit he
    · exact hafter.isForeign (hother fun p hp => hothers p (List.mem_append_right _ hp)) hunit he

/-- **Copies and calls that free them agree.**  Whatever the configuration, as long as it lists the
stack-to-heap pass once and frees, and whatever the files, as long as the parser's spans fit the
texts: the run succeeds, and in each laid out file with flat functions the calls before each return
outside `main` free each array that the run copied and that is declared around the return, unless the
returned expression names it, and nothing else. -/
theorem exists_agree_of_perform (config : RunSettings)
    (honce : config.passes.count .stackToHeap = 1)
    (hfrees : config.relocation.freeOnReturn = true) (validateOutput dryRun : Bool)
    (files : List SourceFile) (hfiles : ∀ file ∈ files, file.SpansFit) :
    ∃ summary, ((build config.selectedPasses validateOutput dryRun).perform files).1 =
        .ok summary ∧
      ∀ (place : Nat) (u : SourceUnit), (files.map (·.unit?))[place]? = some (some u) →
        u.root.tree.isLaidOut = true → u.HasFlatFunctions →
          ∃ (file : FileSummary) (works : List Relocation.Work) (pre post : List Edit),
            summary.files[place]? = some file ∧
              u.ComesOut (pre ++ (works.flatMap (Relocation.Work.edits u) ++ post)) file ∧
                (∀ e ∈ pre ++ post, Relocation.IsForeign u e) ∧ Relocation.Agree u works := by
  obtain ⟨summary, hrun, hout⟩ := exists_works config honce validateOutput dryRun files hfiles
  refine ⟨summary, hrun, fun place u hunit hlaid hflat => ?_⟩
  obtain ⟨file, works, pre, post, hfile, hcomes, haccount, hforeign⟩ := hout place u hunit
  obtain ⟨t, hu, ht⟩ := exists_root_of_isLaidOut hunit hlaid
  exact ⟨file, works, pre, post, hfile, hcomes, hforeign, haccount.agree hfrees hu ht hflat⟩

/-- An array in a block inside the block of another array with the same name. -/
def nestedText : String := "int f(int x) \x7b int a[3]; \x7b int a[2]; return 0; \x7d \x7d\n"

/-- The tree of the arrays in their function. -/
def nestedTree : Tree :=
  .node .sourceUnit none ⟨0, 51⟩ false
    [.node .functionDefinition none ⟨0, 50⟩ false
       [.node (.other "primitive_type") (some .type) ⟨0, 3⟩ false [],
        .node .functionDeclarator (some .declarator) ⟨4, 12⟩ false
          [.node .identifier (some .declarator) ⟨4, 5⟩ false [],
           .node (.other "parameter_list") (some .parameters) ⟨5, 12⟩ false
             [.node (.token "(") none ⟨5, 6⟩ false [],
              .node .parameterDeclaration none ⟨6, 11⟩ false
                [.node (.other "primitive_type") (some .type) ⟨6, 9⟩ false [],
                 .node .identifier (some .declarator) ⟨10, 11⟩ false []],
              .node (.token ")") none ⟨11, 12⟩ false []]],
        .node .compoundStatement (some .body) ⟨13, 50⟩ false
          [.node (.token "\x7b") none ⟨13, 14⟩ false [],
           .node .declaration none ⟨15, 24⟩ false
             [.node (.other "primitive_type") (some .type) ⟨15, 18⟩ false [],
              .node .arrayDeclarator (some .declarator) ⟨19, 23⟩ false
                [.node .identifier (some .declarator) ⟨19, 20⟩ false [],
                 .node (.token "[") none ⟨20, 21⟩ false [],
                 .node .numberLiteral (some .size) ⟨21, 22⟩ false [],
                 .node (.token "]") none ⟨22, 23⟩ false []],
              .node (.token ";") none ⟨23, 24⟩ false []],
           .node .compoundStatement none ⟨25, 48⟩ false
             [.node (.token "\x7b") none ⟨25, 26⟩ false [],
              .node .declaration none ⟨27, 36⟩ false
                [.node (.other "primitive_type") (some .type) ⟨27, 30⟩ false [],
                 .node .arrayDeclarator (some .declarator) ⟨31, 35⟩ false
                   [.node .identifier (some .declarator) ⟨31, 32⟩ false [],
                    .node (.token "[") none ⟨32, 33⟩ false [],
                    .node .numberLiteral (some .size) ⟨33, 34⟩ false [],
                    .node (.token "]") none ⟨34, 35⟩ false []],
                 .node (.token ";") none ⟨35, 36⟩ false []],
              .node .returnStatement none ⟨37, 46⟩ false
                [.node (.token "return") none ⟨37, 43⟩ false [],
                 .node .numberLiteral none ⟨44, 45⟩ false [],
                 .node (.token ";") none ⟨45, 46⟩ false []],
              .node (.token "\x7d") none ⟨47, 48⟩ false []],
           .node (.token "\x7d") none ⟨49, 50⟩ false []]]]

/-- The function as a file. -/
def nestedFile : SourceFile := ⟨"t.c", .ok nestedText, fun _ => nestedTree⟩

/-- The function as a unit. -/
def nestedUnit : SourceUnit :=
  ⟨"t.c", nestedText, .root nestedTree, NameTable.build nestedText (.root nestedTree)⟩

theorem spansFit_nested : ∀ file ∈ [nestedFile], file.SpansFit :=
  SourceFile.spansFit_singleton (by decide)

/-- The nested arrays, freed before the return. -/
theorem exists_agree_of_nested :
    ∃ summary, ((build (RunSettings.selectedPasses { passes := [.stackToHeap] }) false
        true).perform [nestedFile]).1 = .ok summary ∧
      ∃ (file : FileSummary) (works : List Relocation.Work) (pre post : List Edit),
        summary.files[0]? = some file ∧
          nestedUnit.ComesOut (pre ++ (works.flatMap (Relocation.Work.edits nestedUnit) ++ post))
            file ∧
            (∀ e ∈ pre ++ post, Relocation.IsForeign nestedUnit e) ∧
              Relocation.Agree nestedUnit works := by
  obtain ⟨summary, hrun, hout⟩ := exists_agree_of_perform { passes := [.stackToHeap] } rfl rfl false
    true [nestedFile] spansFit_nested
  have hflat : ∀ f ∈ (Node.root nestedTree).walk, f.kind = .functionDefinition →
      f.hasAncestor [.functionDefinition] = false := by decide
  exact ⟨summary, hrun, hout 0 nestedUnit rfl (by decide) hflat⟩

end Pipeline

end ProbeWeaver
