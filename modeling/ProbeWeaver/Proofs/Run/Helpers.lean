import ProbeWeaver.Proofs.Passes.HelperLines
import ProbeWeaver.Proofs.Run.Relocations

/-!
# Proofs/Run/Helpers — each file of a run has the helpers that it calls

In a run with one stack-to-heap pass each file comes once to the lines of its helpers, right after
the pass went through all files (`RunState.Ran.exists_heading`).  What was accepted for it by then
calls the helpers that its work calls (`Relocation.isSupplied`), and what comes later calls none
(`Rule.Produces.isHelperless`).

* `Pipeline.exists_supplied_of_perform` — the helpers of all files of a run.
-/

namespace ProbeWeaver

open Text Relocation

variable {t : Tree} {u : SourceUnit} {r : Rule} {m : Match} {e : Edit} {draws : List Draw}
  {place index : Nat} {text : String} {config : RunSettings} {kind : PassKind}

/-- **Texts of other rules**, made with other numbers, are without helpers. -/
theorem Rule.Produces.isHelperless (h : r.Produces u text draws) (hu : u.IsUncalled)
    (hr : r.HeadsNot helperRule.name)
    (hdraws : ∀ x ∈ draws, x.category ∈ PassKind.stackToHeap.foreign) : IsHelperless u text := by
  cases h with
  | inserted _ form =>
    refine ⟨form.startsAmong, fun call hcall => form.followed hcall hu fun x hx => ?_,
      fun stem hstem hspares => form.quiet_stem hstem hspares⟩
    have hforeign := hdraws x hx
    rw [PassKind.foreign, List.mem_filter, decide_eq_true_iff] at hforeign
    exact hforeign.2
  | heading phase form =>
    have hname : r.name ≠ helperRule.name := hr.resolve_left fun htraversal => by
      rw [phase] at htraversal
      contradiction
    exact ⟨form.startsAmong, fun call hcall => form.followed hcall,
      fun stem hstem _ => form.quiet_stem hstem hname⟩

namespace RunState

variable {s s' : RunState} {ev : Event} {log pre post : List Event} {files : List SourceFile}
  {units : List (Option SourceUnit)} {calls : List (Nat × Visit)}

/-! ## Around the lines -/

/-- **Edits of a stretch of other rules** are without helpers. -/
theorem Ran.isHelperless (h : Ran units log calls)
    (hother : ∀ call ∈ calls, call.2.rule.HeadsNot helperRule.name ∧
      call.2.rule.DrawsOf PassKind.stackToHeap.foreign)
    (hunit : units[place]? = some (some u)) (hu : u.IsUncalled) (he : e ∈ editsFor place log) :
    IsHelperless u e.text := by
  obtain ⟨call, hcall, -, draws, hproduces, hdraws⟩ := h.exists_produces hunit he
  obtain ⟨hheads, hforeign⟩ := hother call hcall
  exact hproduces.isHelperless hu hheads (hdraws _ hforeign)

/-- **The file comes once to its heading** in the late part of a pass. -/
theorem Ran.exists_heading (h : Ran units log (callsFrom (Pass.ofKind config kind) .late 0 units))
    (hr : kind.heading? = some r) (hunit : units[place]? = some (some u)) (hfile : u.IsOneFile)
    (hu : u.root = .root t) (ht : t.kind = .sourceUnit) :
    ∃ pre ev post index m, log = pre ++ ev :: post ∧ ev.call = (place, ⟨r, index, m⟩) ∧
      editsFor place pre = [] ∧ editsFor place post = [] := by
  obtain ⟨index, m, hvisits⟩ := Pass.exists_visits_late config kind hr hfile hu ht
  obtain ⟨front, back, hlate, hplaces⟩ :=
    @callsFrom_split (Pass.ofKind config kind) .late units 0 place _ hunit
  rw [Nat.zero_add, Pass.visitsIn, hvisits] at hlate
  rw [Nat.zero_add] at hplaces
  have hcalls := h.calls
  rw [hlate] at hcalls
  obtain ⟨pre, rest, rfl, hpre, hrest⟩ := List.map_eq_append_iff.mp hcalls
  obtain ⟨ev, post, rfl, hev, hpost⟩ := List.map_eq_cons_iff.mp hrest
  have hnone {log : List Event} {calls : List (Nat × Visit)} (hlog : log.map Event.call = calls)
      (hcalls : ∀ call ∈ calls, call.1 ≠ place) : editsFor place log = [] :=
    editsFor_of_forall_ne fun ev hev => hcalls ev.call (hlog ▸ List.mem_map_of_mem hev)
  exact ⟨pre, ev, post, index, m, rfl, hev,
    hnone hpre fun call hcall => hplaces call (List.mem_append_left _ hcall),
    hnone hpost fun call hcall => hplaces call (List.mem_append_right _ hcall)⟩

/-- A file that takes part is one of the parsed files. -/
theorem exists_parsed (h : s.units[place]? = some (some u)) :
    ∃ file, s.slots[place]? = some (.parsed file) ∧ file.unit = u := by
  rw [units, List.getElem?_map] at h
  obtain ⟨slot, hslot, hunit⟩ := Option.map_eq_some_iff.mp h
  cases slot with
  | abandoned path source cause => cases hunit
  | parsed file => exact ⟨file, hslot, Option.some.inj hunit⟩

/-- **The lines of helpers** in a run: they are made for what was accepted before, and for the flags
that are freed in the whole run, as long as none is freed later. -/
theorem Steps.exists_supplies (h : Steps ⟨files.map (·.slot), {}⟩ (pre ++ ev :: post) s')
    (hcalls : ∀ e ∈ pre ++ ev :: post, ∃ u t, IsListedCall (files.map (·.unit?)) e.call u t)
    (hunit : (files.map (·.unit?))[place]? = some (some u))
    (hev : ev.call = (place, ⟨helperRule, index, m⟩))
    (hspares : ∀ e ∈ post, e.visit.rule.DrawsOf PassKind.stackToHeap.foreign) :
    ∃ set : EditSet, set.Gathers (editsFor place pre) ∧
      ev.edits = supplies u.holdsMain (s'.numbering.count .free) set.insertsAnywhere := by
  obtain ⟨place', v, edits⟩ := ev
  obtain ⟨rfl, rfl⟩ := Prod.mk.inj hev
  have hunits : s'.units[place']? = some (some u) := by
    rw [h.units_eq, units_start]
    exact hunit
  obtain ⟨file, hslot, rfl⟩ := exists_parsed hunits
  obtain ⟨s₁, s₂, accepted, -, hpost, hunits₂, haccepted, hmade, -⟩ := h.exists_cut hcalls hslot
  have hcallsPost : ∀ e ∈ post, ∃ u t, IsListedCall s₂.units e.call u t := fun e he =>
    hunits₂ ▸ hcalls e (List.mem_append_right _ (List.mem_cons_of_mem _ he))
  have hrun := editsOf_helperRule ⟨file.unit, accepted⟩ m s₁.numbering
  obtain ⟨rfl, hnumbering⟩ := Prod.mk.inj (Except.ok.inj (hmade.symm.trans hrun))
  refine ⟨accepted, haccepted, ?_⟩
  rw [hpost.count_eq hcallsPost hspares (by decide), hnumbering]

/-- **The lines of a file** in the late part of the pass: they are made for what was accepted before
it, as long as nothing is freed behind it. -/
theorem Steps.exists_lines {before late after : List Event}
    (h : Steps ⟨files.map (·.slot), {}⟩ (before ++ (late ++ after)) s')
    (hcalls : ∀ e ∈ before ++ (late ++ after), ∃ u t, IsListedCall (files.map (·.unit?)) e.call u t)
    (hlate : Ran (files.map (·.unit?)) late
      (callsFrom (Pass.ofKind config .stackToHeap) .late 0 (files.map (·.unit?))))
    (hunit : (files.map (·.unit?))[place]? = some (some u)) (hfile : u.IsOneFile)
    (hu : u.root = .root t) (ht : t.kind = .sourceUnit)
    (hspares : ∀ e ∈ after, e.visit.rule.DrawsOf PassKind.stackToHeap.foreign) :
    ∃ set : EditSet, set.Gathers (editsFor place before) ∧
      editsFor place late = supplies u.holdsMain (s'.numbering.count .free) set.insertsAnywhere := by
  obtain ⟨pre, ev, post, index, m, rfl, hev, hpre, hpost⟩ :=
    hlate.exists_heading (r := helperRule) rfl hunit hfile hu ht
  have hspares : ∀ e ∈ post ++ after, e.visit.rule.DrawsOf PassKind.stackToHeap.foreign := by
    refine List.forall_mem_append.mpr ⟨fun e he => ?_, hspares⟩
    have hcall : e.call ∈ callsFrom (Pass.ofKind config .stackToHeap) .late 0
        (files.map (·.unit?)) :=
      hlate.calls ▸ List.mem_map_of_mem (List.mem_append_right _ (List.mem_cons_of_mem _ he))
    exact drawsOf_of_mem_callsFrom_late hcall
  have hcut : before ++ (pre ++ ev :: post ++ after) = before ++ pre ++ ev :: (post ++ after) := by
    simp only [List.append_assoc, List.cons_append]
  rw [hcut] at h hcalls
  obtain ⟨set, hset, hlines⟩ := h.exists_supplies hcalls hunit hev hspares
  have hplace : ev.place = place := (Prod.mk.inj hev).1
  refine ⟨set, by rwa [editsFor_append, hpre, List.append_nil] at hset, ?_⟩
  rw [List.append_cons, editsFor_append, editsFor_append, hpre, hpost, ← hlines, ← hplace,
    editsFor_singleton, List.nil_append, List.append_nil]

end RunState

/-- **The start of the output** is what is put at the start of the file. -/
theorem SourceUnit.ComesOut.exists_output_eq {pre mid lines post : List Edit} {file : FileSummary}
    (h : u.ComesOut (pre ++ (mid ++ (lines ++ post))) file) :
    ∃ rest, file.output = textAt (pre ++ mid) 0 ++ (textAt lines 0 ++ rest) := by
  have hcut : textAt (pre ++ (mid ++ (lines ++ post))) 0 =
      textAt (pre ++ mid) 0 ++ (textAt lines 0 ++ textAt post 0) := by
    simp only [textAt_append, String.append_assoc]
  have houtput := h.output_at (isBoundary_zero u.source) hcut
  rw [outputTo, weave_self, Function.update_self] at houtput
  exact ⟨_, houtput⟩

/-- **The file's calls of helpers can be told apart**: it is one file, whose quotes spell no call,
and no declaration ends where it starts. -/
structure SourceUnit.TakesHelpers (u : SourceUnit) : Prop where
  file : u.IsOneFile
  kind : u.root.kind = .sourceUnit
  uncalled : u.IsUncalled
  declarations : ∀ n ∈ u.root.walk, n.kind = .declaration → n.stop ≠ 0

namespace Pipeline

open RunState

/-- **The helpers of a run.**  Whatever the configuration, as long as it lists the stack-to-heap pass
once, and whatever the files, as long as the parser's spans fit the texts: the run succeeds, and each
file whose calls can be told apart comes out with the edits of the work that the pass accounts for,
and with the lines of helpers, which supply it; they stand at its start, with no call in front. -/
theorem exists_supplied_of_perform (config : RunSettings)
    (honce : config.passes.count .stackToHeap = 1) (validateOutput dryRun : Bool)
    (files : List SourceFile) (hfiles : ∀ file ∈ files, file.SpansFit) :
    ∃ summary, ((build config.selectedPasses validateOutput dryRun).perform files).1 =
        .ok summary ∧
      ∀ (place : Nat) (u : SourceUnit), (files.map (·.unit?))[place]? = some (some u) →
        u.TakesHelpers →
          ∃ (file : FileSummary) (works : List Work) (pre lines post : List Edit),
            summary.files[place]? = some file ∧
              u.ComesOut (pre ++ (works.flatMap (Work.edits u) ++ (lines ++ post))) file ∧
                Account config.relocation u works ∧
                  IsSupplied u works (summary.numbering.count .free) pre lines post ∧
                    ∃ rest, file.output =
                      textAt (pre ++ works.flatMap (Work.edits u)) 0 ++ (textAt lines 0 ++ rest) := by
  obtain ⟨front, back, hpasses, hothers, summary, before, mine, late, after, hrun, hbefore, hmine,
    hlate, hafter, ⟨slots, hsteps⟩, hout⟩ := exists_stretches config
      (by decide : PassKind.stackToHeap ≠ .braces) honce validateOutput dryRun files hfiles
  refine ⟨summary, hrun, fun place u hunit htakes => ?_⟩
  obtain ⟨file, hfile, hcomes⟩ := hout place u hunit
  obtain ⟨t, hu⟩ := isRooted_units files u (List.mem_of_getElem? hunit)
  have ht : t.kind = .sourceUnit := by
    have hkind := htakes.kind
    rwa [hu] at hkind
  obtain ⟨works, hworks, haccount⟩ := hmine.exists_account hunit hu
  have hbeforeCalls := Pass.IsOther.of_mem_schedule (r := helperRule)
    (fun p hp => hothers p (List.mem_append_left _ hp)) rfl (files.map (·.unit?))
  have hafterCalls := Pass.IsOther.of_mem_schedule (r := helperRule)
    (fun p hp => hothers p (List.mem_append_right _ hp)) rfl (files.map (·.unit?))
  have hcalls : ∀ e ∈ before ++ mine ++ (late ++ after),
      ∃ u t, IsListedCall (files.map (·.unit?)) e.call u t := by
    simp only [List.forall_mem_append]
    exact ⟨⟨hbefore.listed, hmine.listed⟩, hlate.listed, hafter.listed⟩
  rw [← List.append_assoc] at hsteps
  obtain ⟨set, hset, hlines⟩ := hsteps.exists_lines hcalls hlate hunit htakes.file hu ht
    fun e he => (hafterCalls e.call (hafter.calls ▸ List.mem_map_of_mem he)).2
  rw [editsFor_append, hworks] at hset
  rw [hworks, hlines] at hcomes
  have hhelperless : ∀ e ∈ editsFor place before ++ editsFor place after,
      IsHelperless u e.text :=
    List.forall_mem_append.mpr
      ⟨fun e he => hbefore.isHelperless hbeforeCalls hunit htakes.uncalled he,
        fun e he => hafter.isHelperless hafterCalls hunit htakes.uncalled he⟩
  exact ⟨file, works, _, _, _, hfile, hcomes, haccount,
    isSupplied hu htakes.uncalled htakes.declarations haccount.due hhelperless hset _,
    hcomes.exists_output_eq⟩

/-- The helpers of the nested arrays, which are copied and freed. -/
theorem exists_supplied_of_nested :
    ∃ summary, ((build (RunSettings.selectedPasses { passes := [.stackToHeap] }) false
        true).perform [nestedFile]).1 = .ok summary ∧
      ∃ (file : FileSummary) (works : List Work) (pre lines post : List Edit),
        summary.files[0]? = some file ∧
          nestedUnit.ComesOut
              (pre ++ (works.flatMap (Work.edits nestedUnit) ++ (lines ++ post))) file ∧
            Account {} nestedUnit works ∧
              IsSupplied nestedUnit works (summary.numbering.count .free) pre lines post ∧
                ∃ rest, file.output =
                  textAt (pre ++ works.flatMap (Work.edits nestedUnit)) 0 ++
                    (textAt lines 0 ++ rest) := by
  obtain ⟨summary, hrun, hout⟩ := exists_supplied_of_perform { passes := [.stackToHeap] } rfl false
    true [nestedFile] spansFit_nested
  exact ⟨summary, hrun, hout 0 nestedUnit rfl
    ⟨by decide +kernel, rfl, SourceUnit.isUncalled_of_starts (by decide +kernel),
      by decide +kernel⟩⟩

/-! ## A call spelled in a comment -/

/-- A function that returns a sum, with a comment that calls a helper but for two plus signs. -/
def hiddenText : String :=
  "int f(int a, int b) \x7b return (a/*\nfree_++1(*/) + b; \x7d\n"

/-- The tree of the function. -/
def hiddenTree : Tree :=
  .node .sourceUnit none ⟨0, 54⟩ false
    [.node .functionDefinition none ⟨0, 53⟩ false
       [.node (.other "primitive_type") (some .type) ⟨0, 3⟩ false [],
        .node .functionDeclarator (some .declarator) ⟨4, 19⟩ false
          [.node .identifier (some .declarator) ⟨4, 5⟩ false [],
           .node (.other "parameter_list") (some .parameters) ⟨5, 19⟩ false
             [.node (.token "(") none ⟨5, 6⟩ false [],
              .node .parameterDeclaration none ⟨6, 11⟩ false
                [.node (.other "primitive_type") (some .type) ⟨6, 9⟩ false [],
                 .node .identifier (some .declarator) ⟨10, 11⟩ false []],
              .node (.token ",") none ⟨11, 12⟩ false [],
              .node .parameterDeclaration none ⟨13, 18⟩ false
                [.node (.other "primitive_type") (some .type) ⟨13, 16⟩ false [],
                 .node .identifier (some .declarator) ⟨17, 18⟩ false []],
              .node (.token ")") none ⟨18, 19⟩ false []]],
        .node .compoundStatement (some .body) ⟨20, 53⟩ false
          [.node (.token "\x7b") none ⟨20, 21⟩ false [],
           .node .returnStatement none ⟨22, 51⟩ false
             [.node (.token "return") none ⟨22, 28⟩ false [],
              .node .binaryExpression none ⟨29, 50⟩ false
                [.node .parenthesizedExpression (some .left) ⟨29, 46⟩ false
                   [.node (.token "(") none ⟨29, 30⟩ false [],
                    .node .identifier none ⟨30, 31⟩ false [],
                    .node .comment none ⟨31, 45⟩ false [],
                    .node (.token ")") none ⟨45, 46⟩ false []],
                 .node (.token "+") (some .operator) ⟨47, 48⟩ false [],
                 .node .identifier (some .right) ⟨49, 50⟩ false []],
              .node (.token ";") none ⟨50, 51⟩ false []],
           .node (.token "\x7d") none ⟨52, 53⟩ false []]]]

/-- The function as a file. -/
def hiddenUnit : SourceUnit :=
  ⟨"t.c", hiddenText, .root hiddenTree, NameTable.build hiddenText (.root hiddenTree)⟩

/-- What the rule of integers makes of the file: whether the accepted edits seem to call the helper,
and the numbering. -/
theorem run_hidden :
    (match Observation.integerRule.matchesIn hiddenUnit with
      | .ok ms => ms.map fun m =>
        ((Observation.integerRule.editsOf ⟨hiddenUnit, {}⟩ m).run {}).toOption.map fun made =>
          ((ParsedFile.addAll hiddenText {} made.1).toOption.map (·.insertsAnywhere "\nfree_1("),
            made.2)
      | .error _ => []) =
      [some (some true, (Numbering.next {} .int).2)] := by
  decide +kernel

/-- No work of the pass makes an edit in the file, which declares nothing. -/
theorem edits_eq_nil_of_hidden {lottery : Lottery} {w : Work} (h : w.IsDue lottery hiddenUnit) :
    w.edits hiddenUnit = [] := by
  have hnone : ∀ n ∈ hiddenUnit.root.walk, ∀ d ∈ hiddenUnit.declarators n,
      isEligible hiddenUnit d.node = false := by
    decide +kernel
  cases w with
  | move d decl number? =>
    have heligible := hnone decl h.1.place d h.1.declares
    rw [h.1.eligible] at heligible
    contradiction
  | free ret freed =>
    cases freed with
    | nil => rfl
    | cons first rest =>
      obtain ⟨decl, hdecl, hd, heligible, -⟩ :=
        h.exists_declares (t := hiddenTree) rfl first List.mem_cons_self
      rw [hnone decl hdecl.mem_walk _ hd] at heligible
      contradiction

/-- **Helpers where none is called**: the operand of the sum is quoted without the plus signs of its
comment, which makes a call of it, though the file holds none and no array is moved or freed. -/
theorem exists_uncalled_helper :
    SourceUnit.ofTree? "t.c" hiddenText hiddenTree = .ok hiddenUnit ∧
      (∀ call ∈ helperCalls, contains hiddenText (String.ofList call.toList.tail) = false) ∧
        hiddenUnit.holdsMain = false ∧ hiddenUnit.IsOneFile ∧
          (∀ lottery w, Work.IsDue lottery hiddenUnit w → w.edits hiddenUnit = []) ∧
            ∃ p ∈ (build [integerPass, Relocation.pass {}] false true).passes,
              ∃ q ∈ (build [integerPass, Relocation.pass {}] false true).passes,
                ∃ vs v edits numbering accepted ws w lines,
                  p.visits hiddenUnit .traversal = .ok vs ∧ v ∈ vs ∧
                    (v.rule.editsOf ⟨hiddenUnit, {}⟩ v.found).run {} = .ok (edits, numbering) ∧
                    ParsedFile.addAll hiddenText {} edits = .ok accepted ∧
                  q.visits hiddenUnit .late = .ok ws ∧ w ∈ ws ∧
                    (w.rule.editsOf ⟨hiddenUnit, accepted⟩ w.found).run numbering =
                      .ok (lines, numbering) ∧
                  (rests "#include<stdlib.h>" (textAt lines 0)).length = 1 ∧
                    (rests (defineStem "\nfree_1(") (textAt lines 0)).length = 1 := by
  have hpass : integerPass.Insertive := Pass.insertive_ofKind _ .instrument
  obtain ⟨vs, hvs⟩ := hpass.exists_visits (t := hiddenTree) (u := hiddenUnit) rfl .traversal
  obtain ⟨ms, hms, -⟩ := Observation.insertive_integerRule.exists_matchesIn (t := hiddenTree)
    (u := hiddenUnit) rfl
  have hone : hiddenUnit.IsOneFile := by decide +kernel
  have hmatches := run_hidden
  rw [hms] at hmatches
  obtain ⟨m, rfl, hm⟩ := List.map_eq_singleton_iff.mp hmatches
  obtain ⟨⟨edits, numbering⟩, hrun, hmade⟩ := Option.map_eq_some_iff.mp hm
  obtain ⟨hadded, rfl⟩ := Prod.mk.inj hmade
  obtain ⟨accepted, hadded, hcalled⟩ := Option.map_eq_some_iff.mp hadded
  have hsingle : RuleSet.single Observation.integerRule ∈ integerPass.sets :=
    .tail _ (.tail _ (.tail _ (.head _)))
  obtain ⟨index, hv⟩ := Pass.exists_mem_visits hvs hsingle hms List.mem_cons_self
  obtain ⟨index', m', hws⟩ := Pass.exists_visits_late {} .stackToHeap rfl hone
    (show hiddenUnit.root = .root hiddenTree from rfl) rfl
  have hmain : hiddenUnit.holdsMain = false := by decide +kernel
  have hfree : "\nfree_1(" ∈ helperCalls := by decide
  refine ⟨rfl, by decide +kernel, hmain, hone, fun _ _ => edits_eq_nil_of_hidden, integerPass,
    .tail _ (.head _), _, .tail _ (.tail _ (.head _)), vs, _, edits, _, accepted, _, _, _, hvs, hv,
    eq_ok_of_toOption hrun, eq_ok_of_toOption hadded, hws, List.mem_cons_self,
    editsOf_helperRule ⟨hiddenUnit, accepted⟩ m' _, ?_, ?_⟩
  · rw [(followed_header _ _ _).starts.length_eq, List.length_map, length_supplies,
      List.any_eq_true.mpr ⟨_, hfree, hcalled⟩, Bool.or_true]
    rfl
  · rw [(followed_defines hfree _ _ _).starts.length_eq, length_flatMap_named,
      count_supplied hfree, hcalled, Bool.or_true]
    rfl

end Pipeline

end ProbeWeaver
