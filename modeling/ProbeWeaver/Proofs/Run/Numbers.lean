import ProbeWeaver.Proofs.Passes.Marks
import ProbeWeaver.Proofs.Passes.Writes
import ProbeWeaver.Proofs.Run.Bodies
import ProbeWeaver.Proofs.Run.History

/-!
# Proofs/Run/Numbers — every number that a run hands out is carried once

The edits of one match carry the numbers that their evaluation drew, one mark for each
(`RunState.Step.exists_draws`); a run is one match after the other, so its accepted edits carry all
numbers that it handed out, and no other.

* `Pipeline.exists_draws_of_perform` — the numbers of a whole run.
-/

namespace ProbeWeaver

variable {t : Tree} {u : SourceUnit} {r : Rule} {cx : EditContext} {m : Match} {text : String}
  {draws : List Draw}

/-! ## The edits of a match -/

/-- The template's text came to be with such draws. -/
def EditTemplate.Ran (e : EditTemplate) (cx : EditContext) (m : Match) (text? : Option String)
    (draws : List Draw) : Prop :=
  ∃ numbering numbering', (e.makeText cx m).run numbering = .ok (text?, numbering') ∧
    numbering.Hands draws numbering'

namespace Rule

/-- **A text that a rule may insert**, with its draws: one of the forms of inserted text from a rule
that goes through the file, a heading from a late one. -/
inductive Produces (r : Rule) (u : SourceUnit) : String → List Draw → Prop where
  | inserted {exprs : List Node} {draws : List Draw} {text : String} (phase : r.phase = .traversal)
      (form : Inserted u exprs draws text) : Produces r u text draws
  | heading {text : String} (phase : r.phase = .late) (form : Heading r.name text) :
      Produces r u text []

/-- What a template of the rule may give: nothing, with no draw, or a text. -/
def Gave (r : Rule) (u : SourceUnit) : Option String → List Draw → Prop
  | none, draws => draws = []
  | some text, draws => r.Produces u text draws

/-- **An edit that a rule makes** of a match, with its draws: one of its templates made the text,
for the place that its anchor names. -/
def Makes (r : Rule) (cx : EditContext) (m : Match) (edit : Edit) (draws : List Draw) : Prop :=
  ∃ e ∈ r.edits, anchorRange m e.anchor = .ok (edit.offset, edit.length) ∧
    r.Produces cx.unit edit.text draws ∧ e.Ran cx m (some edit.text) draws

/-- **The edits of a listed rule** in a match that it offers. -/
theorem Listed.gives_editsOf (h : r.Listed) (hu : u.root = .root t) (hm : r.Offers u m)
    (accepted : EditSet) : Eval.Gives (r.editsOf ⟨u, accepted⟩ m) fun edits draws =>
      ∃ dss, draws = dss.flatten ∧ List.Forall₂ (r.Makes ⟨u, accepted⟩ m) edits dss := by
  have htexts : ∀ e ∈ r.edits, Eval.Gives (e.makeText ⟨u, accepted⟩ m) (r.Gave u) := by
    intro e he
    cases hphase : r.phase with
    | traversal =>
      have hwithin := (h.insertive.of_offers hu hm).1
      refine (h.writes hphase e he accepted hu hm hwithin).mono fun text? draws hwrote => ?_
      cases text? with
      | none => exact hwrote
      | some text =>
        obtain ⟨exprs, -, hform⟩ := hwrote
        exact .inserted hphase hform
    | late =>
      obtain ⟨makeText, hedits, hgives⟩ := h.heads hphase
      rw [hedits] at he
      obtain rfl := List.mem_singleton.mp he
      refine (hgives _ _).mono fun text? draws hwrote => ?_
      obtain ⟨rfl, hform⟩ := hwrote
      cases text? with
      | none => rfl
      | some text => exact .heading hphase (hform text rfl)
  exact gives_editsOfTemplates
    (P := fun e text? draws => r.Gave u text? draws ∧ e.Ran ⟨u, accepted⟩ m text? draws)
    (fun _ _ h => h.1) fun e he => (htexts e he).ran

/-- **A text of a rule carries its draws.** -/
theorem Produces.carries (h : r.Produces u text draws) (hu : u.IsUnmarked) :
    List.Forall₂ Draw.CarriedBy draws (marks text) := by
  cases h with
  | inserted phase form => exact form.carries hu
  | heading phase form =>
    rw [form.marks_eq_nil]
    exact .nil

end Rule

/-! ## Steps of a run -/

/-- **The marks that the edits of an event carry**, with the place of their file. -/
def Event.carried (ev : Event) : List (Nat × Mark) :=
  ev.edits.flatMap fun edit => (marks edit.text).map (ev.place, ·)

/-- The edits of an event, each with the event. -/
def Event.made (ev : Event) : List (Event × Edit) := ev.edits.map (ev, ·)

/-- **The call is one of a listed rule**, for a match that the rule offers in the unit there and its
filters accept. -/
structure IsListedCall (units : List (Option SourceUnit)) (call : Nat × Visit) (u : SourceUnit)
    (t : Tree) : Prop where
  unit : units[call.1]? = some (some u)
  root : u.root = .root t
  listed : call.2.rule.Listed
  offers : call.2.rule.Offers u call.2.found
  filters : ∀ f ∈ call.2.rule.filters, f call.2.found u = true

/-- **The event makes the edit** of the unit at its place, with these draws. -/
def Event.MadeWith (units : List (Option SourceUnit)) (ev : Event) (edit : Edit)
    (draws : List Draw) : Prop :=
  ∃ u t accepted, IsListedCall units ev.call u t ∧
    ev.visit.rule.Makes ⟨u, accepted⟩ ev.visit.found edit draws

/-- **What is scheduled** for configured passes are calls of listed rules. -/
theorem exists_isListedCall {passes : List Pass} {units : List (Option SourceUnit)}
    {call : Nat × Visit} (hpasses : ∀ p ∈ passes, ∃ config kind, p = Pass.ofKind config kind)
    (hroots : IsRooted units) (h : call ∈ schedule passes units) :
    ∃ u t, IsListedCall units call u t := by
  obtain ⟨pass, hpass, phase, u, vs, hunit, hvs, hv⟩ := mem_schedule h
  obtain ⟨config, kind, rfl⟩ := hpasses pass hpass
  obtain ⟨t, hroot⟩ := hroots u (List.mem_of_getElem? hunit)
  obtain ⟨hrule, ms, hms, hfound⟩ := Pass.mem_visits hvs hv
  obtain ⟨hoffers, hfilters⟩ := Rule.offers_of_mem_matchesIn hms hfound
  exact ⟨u, t, hunit, hroot, Pass.listed_of_mem hrule, hoffers, hfilters⟩

namespace RunState

variable {s s' : RunState} {ev : Event} {log : List Event}

/-- **One match** takes the numbering on by the draws of its edits. -/
theorem Step.exists_draws (h : Step s ev s') (hcall : IsListedCall s.units ev.call u t) :
    ∃ accepted dss, s.numbering.Hands dss.flatten s'.numbering ∧
      List.Forall₂ (ev.visit.rule.Makes ⟨u, accepted⟩ ev.visit.found) ev.edits dss := by
  cases h with
  | @mk front back file visit edits accepted numbering numbering' made added =>
    have hunit : file.unit = u := by
      have hat := hcall.unit
      rw [units, List.map_append, List.getElem?_append_right (by rw [List.length_map]; rfl)] at hat
      simp only [Event.call, List.length_map, Nat.sub_self] at hat
      exact Option.some.inj (Option.some.inj hat)
    subst hunit
    obtain ⟨draws, hands, dss, rfl, hedits⟩ :=
      hcall.listed.gives_editsOf hcall.root hcall.offers file.edits made
    exact ⟨file.edits, dss, hands, hedits⟩

/-- **A run of matches** takes the numbering on by the draws of all its edits. -/
theorem Steps.exists_draws (h : Steps s log s')
    (hcalls : ∀ ev ∈ log, ∃ u t, IsListedCall s.units ev.call u t) :
    ∃ dss, s.numbering.Hands dss.flatten s'.numbering ∧
      List.Forall₂ (fun made ds => made.1.MadeWith s.units made.2 ds) (log.flatMap Event.made) dss := by
  induction h with
  | nil => exact ⟨[], .nil, .nil⟩
  | @cons s s' s'' ev log step rest ih =>
    obtain ⟨u, t, hcall⟩ := hcalls ev List.mem_cons_self
    obtain ⟨accepted, dss, hands, hedits⟩ := step.exists_draws hcall
    obtain ⟨more, hands', hmore⟩ := ih fun ev' hev' => by
      rw [step.units_eq]
      exact hcalls ev' (List.mem_cons_of_mem ev hev')
    rw [step.units_eq] at hmore
    refine ⟨dss ++ more, List.flatten_append ▸ hands.append hands', ?_⟩
    rw [List.flatMap_cons]
    refine List.rel_append (List.forall₂_map_left_iff.mpr ?_) hmore
    exact hedits.imp fun edit ds hmakes => ⟨u, t, accepted, hcall, hmakes⟩

/-- **Its edits carry these draws**, in order. -/
theorem Steps.exists_carried (h : Steps s log s')
    (hcalls : ∀ ev ∈ log, ∃ u t, IsListedCall s.units ev.call u t)
    (hunits : ∀ u, some u ∈ s.units → u.IsUnmarked) :
    ∃ draws, s.numbering.Hands draws s'.numbering ∧
      List.Forall₂ (fun x carried => x.CarriedBy carried.2) draws
        (log.flatMap Event.carried) := by
  obtain ⟨dss, hands, hmade⟩ := h.exists_draws hcalls
  refine ⟨dss.flatten, hands, ?_⟩
  have hcarried : log.flatMap Event.carried = ((log.flatMap Event.made).map fun made =>
      (marks made.2.text).map (made.1.place, ·)).flatten := by
    rw [List.map_flatMap, ← List.flatMap_id, List.flatMap_assoc]
    refine congrArg log.flatMap (funext fun ev => ?_)
    rw [List.flatMap_id, Event.made, List.map_map, Event.carried, List.flatMap_def]
    rfl
  rw [hcarried]
  refine List.rel_flatten (List.forall₂_map_right_iff.mpr (hmade.flip.imp fun ds made hmade => ?_))
  obtain ⟨u, t, accepted, hcall, hmakes⟩ := hmade
  obtain ⟨e, -, -, hproduces, -⟩ := hmakes
  exact List.forall₂_map_right_iff.mpr
    (hproduces.carries (hunits u (List.mem_of_getElem? hcall.unit)))

end RunState

/-! ## Runs -/

namespace Pipeline

open RunState

theorem exists_ofKind_of_mem_build {config : RunSettings} {validateOutput dryRun : Bool} {p : Pass}
    (hp : p ∈ (build config.selectedPasses validateOutput dryRun).passes) :
    ∃ config kind, p = Pass.ofKind config kind := by
  rcases mem_passes_build hp with rfl | hp
  · exact ⟨{}, .braces, rfl⟩
  · obtain ⟨kind, -, rfl⟩ := List.mem_map.mp hp
    exact ⟨config, kind, rfl⟩

/-- **The numbers of a whole run.**  Whatever the configuration and the files, as long as the
parser's spans fit the texts and the files' quotes hold no mark: the run succeeds; of each category
it hands out `0, 1, …` up to the count that it reports; and the edits accepted for all files carry
these numbers, each in one mark of one edit of one file, and no other number. -/
theorem exists_draws_of_perform (config : RunSettings) (validateOutput dryRun : Bool)
    (files : List SourceFile) (hfiles : ∀ file ∈ files, file.SpansFit)
    (hunits : ∀ file ∈ files, ∀ u, file.unit? = some u → u.IsUnmarked) :
    ∃ summary, ((build config.selectedPasses validateOutput dryRun).perform files).1 = .ok summary ∧
      ∃ log slots draws, Steps ⟨files.map (·.slot), {}⟩ log ⟨slots, summary.numbering⟩ ∧
        log.map Event.call = schedule (build config.selectedPasses validateOutput dryRun).passes
          (files.map (·.unit?)) ∧
          FileSlot.finishAll validateOutput slots = .ok summary.files ∧
            Numbering.Hands {} draws summary.numbering ∧
              (∀ c, Draw.numbersOf c draws = List.range (summary.numbering.count c)) ∧
                List.Forall₂ (fun x carried => x.CarriedBy carried.2) draws
                  (log.flatMap Event.carried) := by
  have hpasses := insertive_build config validateOutput dryRun
  obtain ⟨summary, hrun, -, -⟩ := exists_perform config validateOutput dryRun files hfiles
  obtain ⟨log, slots, hsteps, hlog, hfinish⟩ := exists_steps_of_perform hpasses hrun
  have hstart : RunState.units ⟨files.map (·.slot), {}⟩ = files.map (·.unit?) := by
    rw [RunState.units, List.map_map]
    rfl
  have hcalls : ∀ ev ∈ log, ∃ u t, IsListedCall (RunState.units ⟨files.map (·.slot), {}⟩) ev.call
      u t := by
    intro ev hev
    rw [hstart]
    exact exists_isListedCall (fun p hp => exists_ofKind_of_mem_build hp) (isRooted_units files)
      (hlog ▸ List.mem_map_of_mem hev)
  obtain ⟨draws, hands, hcarried⟩ := hsteps.exists_carried hcalls fun u hu => by
    rw [hstart] at hu
    obtain ⟨file, hfile, hunit⟩ := List.mem_map.mp hu
    exact hunits file hfile u hunit
  exact ⟨summary, hrun, log, slots, draws, hsteps, hlog, hfinish, hands, hands.of_start, hcarried⟩

/-- The numbers of the loop, run with sites and integers reported. -/
theorem exists_draws_of_perform_loop :
    ∃ summary, ((build (RunSettings.selectedPasses { mode := some .integer }) false true).perform
      [loopFile]).1 = .ok summary ∧
      ∃ log slots draws, Steps ⟨[loopFile.slot], {}⟩ log ⟨slots, summary.numbering⟩ ∧
        log.map Event.call =
          schedule (build (RunSettings.selectedPasses { mode := some .integer }) false true).passes
            [loopFile.unit?] ∧
          FileSlot.finishAll false slots = .ok summary.files ∧
            Numbering.Hands {} draws summary.numbering ∧
              (∀ c, Draw.numbersOf c draws = List.range (summary.numbering.count c)) ∧
                List.Forall₂ (fun x carried => x.CarriedBy carried.2) draws
                  (log.flatMap Event.carried) := by
  refine exists_draws_of_perform { mode := some .integer } false true [loopFile]
    (fun file hfile text htext => ?_) fun file hfile u hunit => ?_
  · obtain rfl := List.mem_singleton.mp hfile
    obtain rfl := Except.ok.inj htext
    decide
  · obtain rfl := List.mem_singleton.mp hfile
    obtain rfl := Option.some.inj hunit
    decide +kernel

/-! ## A mark spelled in a comment -/

/-- A function that returns a sum, with a comment that is a mark but for two plus signs. -/
def forgedText : String :=
  "int f(int a, int b) \x7b return (a/*I:++ID0:INSERTIONSITE:*/) + b; \x7d\n"

/-- The tree of the function. -/
def forgedTree : Tree :=
  .node .sourceUnit none ⟨0, 66⟩ false
    [.node .functionDefinition none ⟨0, 65⟩ false
       [.node (.other "primitive_type") (some .type) ⟨0, 3⟩ false [],
        .node .functionDeclarator (some .declarator) ⟨4, 19⟩ false
          [.node .identifier (some .declarator) ⟨4, 5⟩ false [],
           .node (.other "parameter_list") (some .parameters) ⟨5, 19⟩ false
             [.node (.token "(") none ⟨5, 6⟩ false [],
              .node .parameterDeclaration none ⟨6, 11⟩ false
                [.node (.other "primitive_type") (some .type) ⟨6, 9⟩ false [],
                 .node .identifier (some .declarator) ⟨10, 11⟩ false []],
              .node (.token ",") none ⟨11, 12⟩ false [],
              .node .parameterDeclaration none ⟨13, 18⟩ false
                [.node (.other "primitive_type") (some .type) ⟨13, 16⟩ false [],
                 .node .identifier (some .declarator) ⟨17, 18⟩ false []],
              .node (.token ")") none ⟨18, 19⟩ false []]],
        .node .compoundStatement (some .body) ⟨20, 65⟩ false
          [.node (.token "\x7b") none ⟨20, 21⟩ false [],
           .node .returnStatement none ⟨22, 63⟩ false
             [.node (.token "return") none ⟨22, 28⟩ false [],
              .node .binaryExpression none ⟨29, 62⟩ false
                [.node .parenthesizedExpression (some .left) ⟨29, 58⟩ false
                   [.node (.token "(") none ⟨29, 30⟩ false [],
                    .node .identifier none ⟨30, 31⟩ false [],
                    .node .comment none ⟨31, 57⟩ false [],
                    .node (.token ")") none ⟨57, 58⟩ false []],
                 .node (.token "+") (some .operator) ⟨59, 60⟩ false [],
                 .node .identifier (some .right) ⟨61, 62⟩ false []],
              .node (.token ";") none ⟨62, 63⟩ false []],
           .node (.token "\x7d") none ⟨64, 65⟩ false []]]]

/-- The function as a file. -/
def forgedUnit : SourceUnit :=
  ⟨"t.c", forgedText, .root forgedTree, NameTable.build forgedText (.root forgedTree)⟩

/-- What the rule of integers makes of the file: the marks of its edits, and the numbering. -/
theorem marks_forged :
    (match Observation.integerRule.matchesIn forgedUnit with
      | .ok ms => ms.map fun m =>
        ((Observation.integerRule.editsOf ⟨forgedUnit, {}⟩ m).run {}).toOption.map fun made =>
          (made.1.flatMap (marks ·.text), made.2)
      | .error _ => []) =
      [some ([⟨"VARREF_INTEGER", 0⟩, ⟨"INSERTIONSITE", 0⟩, ⟨"INSERTIONSITE", 0⟩],
        (Numbering.next {} .int).2)] := by
  decide +kernel

/-- **A mark that no number was handed out for**: the operand of the sum is quoted without the plus
signs of its comment, which makes a mark of it, though the file holds none. -/
theorem exists_forged_mark :
    SourceUnit.ofTree? "t.c" forgedText forgedTree = .ok forgedUnit ∧
      Text.contains forgedText markerStart = false ∧
        (∀ h ∈ Hooks.all, Text.contains forgedText (Hooks.closerStem h) = false) ∧
          ∃ p ∈ (build [integerPass] false true).passes, ∃ vs v edits numbering,
            p.visits forgedUnit .traversal = .ok vs ∧ v ∈ vs ∧
              (v.rule.editsOf ⟨forgedUnit, {}⟩ v.found).run {} = .ok (edits, numbering) ∧
                numbering.count .inst = 0 ∧ ⟨"INSERTIONSITE", 0⟩ ∈ edits.flatMap (marks ·.text) ∧
                  ∀ draws, Numbering.Hands {} draws numbering →
                    ¬ List.Forall₂ Draw.CarriedBy draws (edits.flatMap (marks ·.text)) := by
  have hpass : integerPass.Insertive := Pass.insertive_ofKind _ .instrument
  obtain ⟨vs, hvs⟩ := hpass.exists_visits (t := forgedTree) (u := forgedUnit) rfl .traversal
  obtain ⟨ms, hms, -⟩ := Observation.insertive_integerRule.exists_matchesIn (t := forgedTree)
    (u := forgedUnit) rfl
  have hmatches := marks_forged
  rw [hms] at hmatches
  obtain ⟨m, rfl, hm⟩ := List.map_eq_singleton_iff.mp hmatches
  obtain ⟨⟨edits, numbering⟩, hrun, hmade⟩ := Option.map_eq_some_iff.mp hm
  obtain ⟨hmarks, rfl⟩ := Prod.mk.inj hmade
  have hsingle : RuleSet.single Observation.integerRule ∈ integerPass.sets :=
    .tail _ (.tail _ (.tail _ (.head _)))
  obtain ⟨index, hv⟩ := Pass.exists_mem_visits hvs hsingle hms List.mem_cons_self
  have hforged : ⟨"INSERTIONSITE", 0⟩ ∈ edits.flatMap (marks ·.text) := by
    rw [hmarks]
    exact .tail _ (.head _)
  refine ⟨rfl, by decide +kernel, by decide +kernel, integerPass, .tail _ (.head _), vs, _, edits,
    _, hvs, hv, eq_ok_of_toOption hrun, rfl, hforged, fun draws hands hcarried => ?_⟩
  -- only the numbers of sites go under that label, and none was handed out
  obtain ⟨x, hx, hnumber, hlabel⟩ := exists_of_forall₂_of_mem hcarried hforged
  have hlt := hands.number_lt hx
  have hcategory : ∀ c : Category, "INSERTIONSITE" ∈ c.labels → c = .inst := by
    intro c
    cases c <;> decide
  rw [hcategory _ hlabel] at hlt
  exact Nat.not_lt_zero _ hlt

end Pipeline

end ProbeWeaver
