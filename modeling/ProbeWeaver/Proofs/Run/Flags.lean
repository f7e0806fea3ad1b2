import ProbeWeaver.Proofs.Passes.FlagLines
import ProbeWeaver.Proofs.Run.Headings

/-!
# Proofs/Run/Flags — flag arrays are declared before their uses, and long enough

In a run with one instrument pass each file comes once to the lines of its flag arrays, after
everything that draws numbers of flagged categories (`exists_log_eq`).

* `Pipeline.exists_declares_of_perform` — the flag arrays of all files of a run.
-/

namespace ProbeWeaver

open Text
open Tracing (flagCategories)

variable {t : Tree} {u : SourceUnit} {r : Rule} {m : Match} {cx : EditContext} {edit : Edit}
  {draws : List Draw} {place : Nat} {c : Category} {n : Nat} {ruleName : String}

/-! ## Edits of a match -/

namespace Rule

/-- **The text of an edit uses the flags that were drawn for it.** -/
theorem Produces.uses {text : String} (h : r.Produces u text draws)
    (hr : r.HeadsNot Tracing.flagRule.name) (hu : u.IsFlagless) (hc : c ∈ flagCategories) :
    Probe.Uses c text fun n => ⟨c, n⟩ ∈ draws := by
  cases h with
  | inserted _ form => exact form.uses hc hu
  | heading phase form =>
    refine Probe.uses_of_quiet (form.quiet (flagStem_mem hc) (fun hname => ?_) fun _ =>
      flagStem_ne_defineStem hc)
    rcases hr with htraversal | hname'
    · rw [phase] at htraversal
      contradiction
    · exact absurd hname hname'

/-- **No flagged number goes to the start** of a file. -/
theorem Makes.not_mem_of_start (h : r.Makes cx m edit draws) (hlisted : r.Listed)
    (hu : cx.unit.root = .root t) (hclear : cx.unit.StartsClear) (hm : r.Offers cx.unit m)
    (hfilters : ∀ f ∈ r.filters, f m cx.unit = true) (hstart : edit.offset = 0)
    (hc : c ∈ flagCategories) : ⟨c, n⟩ ∉ draws := by
  obtain ⟨e, he, hrange, -, numbering, numbering', hrun, hands⟩ := h
  rcases hlisted.sparesOrClears e he with hspares | hclears
  · exact (hspares cx m).not_mem hrun hands (Tracing.not_mem_unflagged hc)
  · have hwithin := (hlisted.insertive.of_offers hu hm).1
    exact absurd hstart (hclears hu hclear hm hfilters hwithin hrange)

end Rule

/-! ## The flags of a run -/

namespace RunState

variable {s s' : RunState} {ev : Event} {log : List Event}

/-- **The edits for a file use flags** below the counts that the run comes to, and none at the start
of the file. -/
theorem Steps.uses_of_mem_editsFor (h : Steps s log s')
    (hcalls : ∀ ev ∈ log, ∃ u t, IsListedCall s.units ev.call u t)
    (hunit : s.units[place]? = some (some u)) (hu : u.IsFlagless) (hclear : u.StartsClear)
    (hlines : ∀ ev ∈ log, ev.place = place → ev.visit.rule.HeadsNot Tracing.flagRule.name)
    (hedit : edit ∈ editsFor place log) (hc : c ∈ flagCategories) :
    Probe.Uses c edit.text fun n => n < s'.numbering.count c ∧ edit.offset ≠ 0 := by
  obtain ⟨ev, hev, rfl, hmade⟩ := exists_event_of_mem_editsFor hedit
  obtain ⟨v, t, accepted, draws, hcall, hmakes, hbelow⟩ := h.exists_makes hcalls hev hmade
  obtain rfl := Option.some.inj (Option.some.inj (hcall.unit.symm.trans hunit))
  have hproduces : ev.visit.rule.Produces v edit.text draws := Rule.Makes.produces hmakes
  refine (hproduces.uses (hlines ev hev rfl) hu hc).mono fun n hn => ⟨hbelow _ hn, fun hstart => ?_⟩
  exact Rule.Makes.not_mem_of_start hmakes hcall.listed hcall.root hclear hcall.offers hcall.filters
    hstart hc hn

/-- Edits of rules that spare flags use none. -/
theorem Steps.uses_none_of_mem_editsFor (h : Steps s log s')
    (hcalls : ∀ ev ∈ log, ∃ u t, IsListedCall s.units ev.call u t)
    (hunit : s.units[place]? = some (some u)) (hu : u.IsFlagless)
    (hlines : ∀ ev ∈ log, ev.place = place → ev.visit.rule.HeadsNot Tracing.flagRule.name)
    (hspares : ∀ ev ∈ log, ev.visit.rule.DrawsOf Tracing.unflagged)
    (hedit : edit ∈ editsFor place log) (hc : c ∈ flagCategories) :
    Probe.Uses c edit.text fun _ => False := by
  obtain ⟨ev, hev, rfl, hmade⟩ := exists_event_of_mem_editsFor hedit
  obtain ⟨v, t, accepted, draws, hcall, hmakes, -⟩ := h.exists_makes hcalls hev hmade
  obtain rfl := Option.some.inj (Option.some.inj (hcall.unit.symm.trans hunit))
  have hproduces : ev.visit.rule.Produces v edit.text draws := Rule.Makes.produces hmakes
  exact (hproduces.uses (hlines ev hev rfl) hu hc).mono fun n hn =>
    Rule.Makes.not_mem_of_drawsOf hmakes (hspares ev hev) (Tracing.not_mem_unflagged hc) hn

end RunState

/-! ## Runs -/

namespace RunState

variable {s s' : RunState} {log : List Event} {files : List SourceFile} {file : ParsedFile}

/-- The edits of the file that come before, at, and after the lines of its flag arrays. -/
theorem Steps.exists_declares {pre post : List Event} {ev : Event} {m : Match} {index : Nat}
    (h : Steps ⟨files.map (·.slot), {}⟩ (pre ++ ev :: post) s')
    (hcalls : ∀ e ∈ pre ++ ev :: post, ∃ u t, IsListedCall (files.map (·.unit?)) e.call u t)
    (hev : ev.call = (place, ⟨Tracing.flagRule, index, m⟩))
    (hlines : ∀ e ∈ pre ++ post, e.place = place → e.visit.rule.HeadsNot Tracing.flagRule.name)
    (hspares : ∀ e ∈ post, e.visit.rule.DrawsOf Tracing.unflagged)
    (hslot : s'.slots[place]? = some (.parsed file)) (hflagless : file.unit.IsFlagless)
    (hclear : file.unit.StartsClear) :
    ∃ before after,
      Tracing.Declares file.edits.inserted file.unit.holdsMain s'.numbering before after := by
  obtain ⟨place', v, edits⟩ := ev
  obtain ⟨rfl, rfl⟩ := Prod.mk.inj hev
  have hstart := units_start files
  obtain ⟨hunit, -⟩ := h.holds_of_start hcalls hslot
  obtain ⟨s₁, s₂, accepted, hpre, hpost, hunits, haccepted, hmade, hfile⟩ := h.exists_cut hcalls hslot
  have hcallsPre : ∀ e ∈ pre, ∃ u t, IsListedCall (files.map (·.unit?)) e.call u t :=
    fun e he => hcalls e (List.mem_append_left _ he)
  have hcallsPost : ∀ e ∈ post, ∃ u t, IsListedCall s₂.units e.call u t := fun e he =>
    hunits ▸ hcalls e (List.mem_append_right _ (List.mem_cons_of_mem _ he))
  obtain ⟨lines, hrun, hmid, hlinesAt⟩ :=
    Tracing.exists_editsOf_flagRule ⟨file.unit, accepted⟩ m s₁.numbering
  obtain ⟨rfl, hnumbering⟩ := Prod.mk.inj (Except.ok.inj (hmade.symm.trans hrun))
  have hcount : ∀ c ∈ flagCategories, s₁.numbering.count c = s'.numbering.count c := fun c hc => by
    rw [hpost.count_eq hcallsPost hspares (Tracing.not_mem_unflagged hc), hnumbering]
  have hheading : textAt edits 0 = Tracing.flagHeading file.unit.holdsMain s'.numbering
      (Tracing.usesFlag accepted) := by
    rw [hlinesAt]
    exact Tracing.flagHeading_congr hcount fun _ _ => rfl
  refine Tracing.exists_declares (fun e he c hc => ?_) hmid (fun e he c hc => ?_) hfile hheading
    fun c _ => ?_
  · rw [← hcount c hc]
    exact hpre.uses_of_mem_editsFor (hstart ▸ hcallsPre) (hstart ▸ hunit) hflagless hclear
      (fun e he => hlines e (List.mem_append_left _ he)) he hc
  · exact hpost.uses_none_of_mem_editsFor hcallsPost (hunits ▸ hunit) hflagless
      (fun e he => hlines e (List.mem_append_right _ he)) hspares he hc
  · rw [Tracing.usesFlag, EditSet.insertsAnywhere, List.any_eq_true]
    constructor
    · rintro ⟨x, hx, hcontains⟩
      obtain ⟨e, he, hoffset⟩ := (haccepted.offsets x.offset).mp ⟨x, hx, rfl⟩
      exact ⟨e, he, by rwa [hoffset, ← haccepted.text x hx]⟩
    · rintro ⟨e, he, hcontains⟩
      obtain ⟨x, hx, hoffset⟩ := (haccepted.offsets e.offset).mpr ⟨e, he, rfl⟩
      exact ⟨x, hx, by rwa [haccepted.text x hx, hoffset]⟩

end RunState

/-- **The file's flags can be told apart**: one file, whose quotes mention no flag array and whose
start is clear. -/
structure SourceUnit.TakesFlags (u : SourceUnit) : Prop where
  file : u.IsOneFile
  kind : u.root.kind = .sourceUnit
  flagless : u.IsFlagless
  clear : u.StartsClear

namespace Pipeline

open RunState

/-- **The flag arrays of a run.**  Whatever the configuration, as long as it lists the instrument
pass once, and whatever the files, as long as the parser's spans fit the texts and each file takes
flags: the run succeeds; in the text inserted into a file the lines of flag arrays come before all
uses of flags; where `main` is they define each array once; elsewhere they declare exactly the
arrays in use, each once; and each flag in use lies below the length, which is the count that the
run reports. -/
theorem exists_declares_of_perform (config : RunSettings)
    (hinstrument : config.passes.count .instrument = 1) (validateOutput dryRun : Bool)
    (files : List SourceFile) (hfiles : ∀ file ∈ files, file.SpansFit)
    (hunits : ∀ file ∈ files, ∀ u, file.unit? = some u → u.TakesFlags) :
    ∃ summary, ((build config.selectedPasses validateOutput dryRun).perform files).1 = .ok summary ∧
      ∃ log slots, Steps ⟨files.map (·.slot), {}⟩ log ⟨slots, summary.numbering⟩ ∧
        log.map Event.call = schedule (build config.selectedPasses validateOutput dryRun).passes
          (files.map (·.unit?)) ∧
          FileSlot.finishAll validateOutput slots = .ok summary.files ∧
            ∀ file, .parsed file ∈ slots → ∃ before after, Tracing.Declares file.edits.inserted
              file.unit.holdsMain summary.numbering before after := by
  have hpasses := insertive_build config validateOutput dryRun
  obtain ⟨summary, hrun, -, -⟩ := exists_perform config validateOutput dryRun files hfiles
  obtain ⟨log, slots, hsteps, hlog, hfinish⟩ := exists_steps_of_perform hpasses hrun
  refine ⟨summary, hrun, log, slots, hsteps, hlog, hfinish, fun file hfile => ?_⟩
  have hcalls : ∀ ev ∈ log, ∃ u t, IsListedCall (files.map (·.unit?)) ev.call u t := fun ev hev =>
    exists_isListedCall (fun p hp => exists_ofKind_of_mem_build hp) (isRooted_units files)
      (hlog ▸ List.mem_map_of_mem hev)
  obtain ⟨place, hslot⟩ := List.mem_iff_getElem?.mp hfile
  obtain ⟨hunit, -⟩ := hsteps.holds_of_start hcalls hslot
  obtain ⟨origin, horigin, hunitAt⟩ := List.mem_map.mp (List.mem_of_getElem? hunit)
  have hflags := hunits origin horigin file.unit hunitAt
  obtain ⟨pre, ev, post, index, m, rfl, hev, hlines, hspares⟩ := exists_log_eq .instrument rfl
    hinstrument hlog hunit hflags.file hflags.kind
  exact hsteps.exists_declares hcalls hev hlines (fun e he => (hspares e he).mono (by decide)) hslot
    hflags.flagless hflags.clear

/-- The flag arrays of the loop, run with sites and integers reported. -/
theorem exists_declares_of_perform_loop :
    ∃ summary, ((build (RunSettings.selectedPasses { mode := some .integer }) false true).perform
      [loopFile]).1 = .ok summary ∧
      ∃ log slots, Steps ⟨[loopFile.slot], {}⟩ log ⟨slots, summary.numbering⟩ ∧
        log.map Event.call =
          schedule (build (RunSettings.selectedPasses { mode := some .integer }) false true).passes
            [loopFile.unit?] ∧
          FileSlot.finishAll false slots = .ok summary.files ∧
            ∀ file, .parsed file ∈ slots → ∃ before after, Tracing.Declares file.edits.inserted
              file.unit.holdsMain summary.numbering before after := by
  refine exists_declares_of_perform { mode := some .integer } (by decide) false true [loopFile]
    (fun file hfile text htext => ?_) fun file hfile u hunit => ?_
  · obtain rfl := List.mem_singleton.mp hfile
    obtain rfl := Except.ok.inj htext
    decide
  · obtain rfl := List.mem_singleton.mp hfile
    obtain rfl := Option.some.inj hunit
    exact ⟨by decide +kernel, by decide +kernel, by decide +kernel,
      ⟨by decide +kernel, by decide +kernel, by decide +kernel⟩⟩

/-! ## An array spelled in a string -/

/-- A function that returns a sum, one operand of which spells a flag array but for two plus
signs. -/
def spelledText : String :=
  "int g(char *s);\nint f() \x7b return g(\"print_++flag_mem[\") + 1; \x7d\n"

/-- The tree of the function. -/
def spelledTree : Tree :=
  .node .sourceUnit none ⟨0, 63⟩ false
    [.node .declaration none ⟨0, 15⟩ false
       [.node (.other "primitive_type") (some .type) ⟨0, 3⟩ false [],
        .node .functionDeclarator (some .declarator) ⟨4, 14⟩ false
          [.node .identifier (some .declarator) ⟨4, 5⟩ false [],
           .node (.other "parameter_list") (some .parameters) ⟨5, 14⟩ false
             [.node (.token "(") none ⟨5, 6⟩ false [],
              .node .parameterDeclaration none ⟨6, 13⟩ false
                [.node (.other "primitive_type") (some .type) ⟨6, 10⟩ false [],
                 .node .pointerDeclarator (some .declarator) ⟨11, 13⟩ false
                   [.node (.token "*") none ⟨11, 12⟩ false [],
                    .node .identifier (some .declarator) ⟨12, 13⟩ false []]],
              .node (.token ")") none ⟨13, 14⟩ false []]],
        .node (.token ";") none ⟨14, 15⟩ false []],
     .node .functionDefinition none ⟨16, 62⟩ false
       [.node (.other "primitive_type") (some .type) ⟨16, 19⟩ false [],
        .node .functionDeclarator (some .declarator) ⟨20, 23⟩ false
          [.node .identifier (some .declarator) ⟨20, 21⟩ false [],
           .node (.other "parameter_list") (some .parameters) ⟨21, 23⟩ false
             [.node (.token "(") none ⟨21, 22⟩ false [], .node (.token ")") none ⟨22, 23⟩ false []]],
        .node .compoundStatement (some .body) ⟨24, 62⟩ false
          [.node (.token "\x7b") none ⟨24, 25⟩ false [],
           .node .returnStatement none ⟨26, 60⟩ false
             [.node (.token "return") none ⟨26, 32⟩ false [],
              .node .binaryExpression none ⟨33, 59⟩ false
                [.node .callExpression (some .left) ⟨33, 55⟩ false
                   [.node .identifier (some .function) ⟨33, 34⟩ false [],
                    .node (.other "argument_list") (some (.other "arguments")) ⟨34, 55⟩ false
                      [.node (.token "(") none ⟨34, 35⟩ false [],
                       .node .stringLiteral none ⟨35, 54⟩ false
                         [.node (.token "\"") none ⟨35, 36⟩ false [],
                          .node (.other "string_content") none ⟨36, 53⟩ false [],
                          .node (.token "\"") none ⟨53, 54⟩ false []],
                       .node (.token ")") none ⟨54, 55⟩ false []]],
                 .node (.token "+") (some .operator) ⟨56, 57⟩ false [],
                 .node .numberLiteral (some .right) ⟨58, 59⟩ false []],
              .node (.token ";") none ⟨59, 60⟩ false []],
           .node (.token "\x7d") none ⟨61, 62⟩ false []]]]

/-- The function as a file. -/
def spelledUnit : SourceUnit :=
  ⟨"t.c", spelledText, .root spelledTree, NameTable.build spelledText (.root spelledTree)⟩

/-- What the rule of integers makes of the file: whether the accepted edits seem to use the array,
whether a quotation mark follows each mention, and the numbering. -/
theorem run_spelled :
    (match Observation.integerRule.matchesIn spelledUnit with
      | .ok ms => ms.map fun m =>
        ((Observation.integerRule.editsOf ⟨spelledUnit, {}⟩ m).run {}).toOption.map fun made =>
          ((ParsedFile.addAll spelledText {} made.1).toOption.map fun set =>
            Tracing.usesFlag set .mem,
            made.1.all fun e => (rests (Probe.flagStem .mem) e.text).all (·.head? == some '"'),
            made.2)
      | .error _ => []) =
      [some (some true, true, (Numbering.next {} .int).2)] := by
  decide +kernel

/-- A quotation mark is no use of a flag. -/
theorem Probe.not_reads_of_head? {rest : List Char} (h : rest.head? = some '"') (n : Nat) :
    ¬ Probe.Reads n rest := by
  have hno {text : String} : ¬ (toString n ++ text).toList <+: rest := by
    intro hprefix
    rw [String.toList_append] at hprefix
    obtain ⟨d, ds, hd⟩ := List.exists_cons_of_ne_nil
      (show (toString n).toList ≠ [] by
        rw [Nat.toString_eq_repr, Nat.toList_repr]
        exact Nat.toDigits_ne_nil)
    have hdigit := isDigit_of_mem_toString (n := n) (c := d) (hd ▸ List.mem_cons_self)
    rw [hd] at hprefix
    obtain ⟨more, rfl⟩ := hprefix
    obtain rfl := Option.some.inj h
    exact absurd hdigit (by decide)
  exact fun h => h.elim hno hno

/-- **An array declared that nothing uses**: the operand of the sum is quoted without the plus signs
of its string, which makes a mention of an array of it, though the file holds none. -/
theorem exists_unused_declaration :
    SourceUnit.ofTree? "t.c" spelledText spelledTree = .ok spelledUnit ∧
      contains spelledText "print_flag_" = false ∧ spelledUnit.holdsMain = false ∧
        spelledUnit.IsOneFile ∧ spelledUnit.StartsClear ∧
          ∃ p ∈ (build [integerPass] false true).passes, ∃ vs v edits numbering accepted ws w lines,
            p.visits spelledUnit .traversal = .ok vs ∧ v ∈ vs ∧
              (v.rule.editsOf ⟨spelledUnit, {}⟩ v.found).run {} = .ok (edits, numbering) ∧
              ParsedFile.addAll spelledText {} edits = .ok accepted ∧
            p.visits spelledUnit .late = .ok ws ∧ w ∈ ws ∧
              (w.rule.editsOf ⟨spelledUnit, accepted⟩ w.found).run numbering =
                .ok (lines, numbering) ∧
            numbering.count .mem = 0 ∧
              (∀ edit ∈ edits, ∀ rest ∈ rests (Probe.flagStem .mem) edit.text, ∀ n,
                ¬ Probe.Reads n rest) ∧
                (rests (Probe.flagStem .mem) (textAt lines 0)).length = 1 := by
  have hpass : integerPass.Insertive := Pass.insertive_ofKind _ .instrument
  obtain ⟨vs, hvs⟩ := hpass.exists_visits (t := spelledTree) (u := spelledUnit) rfl .traversal
  obtain ⟨ms, hms, -⟩ := Observation.insertive_integerRule.exists_matchesIn (t := spelledTree)
    (u := spelledUnit) rfl
  have hone : spelledUnit.IsOneFile := by decide +kernel
  have hmatches := run_spelled
  rw [hms] at hmatches
  obtain ⟨m, rfl, hm⟩ := List.map_eq_singleton_iff.mp hmatches
  obtain ⟨⟨edits, numbering⟩, hrun, hmade⟩ := Option.map_eq_some_iff.mp hm
  obtain ⟨hadded, hmade⟩ := Prod.mk.inj hmade
  obtain ⟨hquoted, rfl⟩ := Prod.mk.inj hmade
  obtain ⟨accepted, hadded, hused⟩ := Option.map_eq_some_iff.mp hadded
  have hsingle : RuleSet.single Observation.integerRule ∈ integerPass.sets :=
    .tail _ (.tail _ (.tail _ (.head _)))
  obtain ⟨index, hv⟩ := Pass.exists_mem_visits hvs hsingle hms List.mem_cons_self
  obtain ⟨index', m', hws⟩ := Pass.exists_visits_late { mode := some .integer } .instrument rfl
    hone (show spelledUnit.root = .root spelledTree from rfl) rfl
  obtain ⟨lines, hlines, -, htextAt⟩ := Tracing.exists_editsOf_flagRule ⟨spelledUnit, accepted⟩ m'
    (Numbering.next {} .int).2
  refine ⟨rfl, by decide +kernel, by decide +kernel, hone,
    ⟨by decide +kernel, by decide +kernel, by decide +kernel⟩, integerPass, .tail _ (.head _), vs, _,
    edits, _, accepted, _, _, lines, hvs, hv, eq_ok_of_toOption hrun, eq_ok_of_toOption hadded, hws,
    List.mem_cons_self, hlines, rfl, fun edit hedit rest hrest n => ?_, ?_⟩
  · have hall := List.all_eq_true.mp (List.all_eq_true.mp hquoted edit hedit) rest hrest
    exact Probe.not_reads_of_head? (beq_iff_eq.mp hall) n
  · rw [htextAt, Tracing.rests_flagHeading (by decide), hused, Bool.or_true]
    rfl

end Pipeline

end ProbeWeaver
