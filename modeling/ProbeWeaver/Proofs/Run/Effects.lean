import ProbeWeaver.Proofs.Passes.Effects
import ProbeWeaver.Proofs.Rule.Matches
import ProbeWeaver.Proofs.Run.Notices

/-!
# Proofs/Run/Effects — which probes of a run change the state of the program

Every probe of a run stands behind the marker of a notice and evaluates the arguments of the notice,
so it acts exactly when what the notice reports does (`Pipeline.exists_acts_of_perform`).
-/

namespace ProbeWeaver

open RunState

/-- **The probe of a notice** is the statement behind its marker. -/
theorem Notice.tail_of_probe? {u : SourceUnit} {id : Nat} {c : Category} {format : String} :
    ∀ {n : Notice}, n.probe? id = some (c, format) →
      n.tail u id = Probe.statement c id format (n.args.map (·.spelling u))
  | .site, h | .pointer _ _, h | .object _ _, h | .pointee _ _, h | .variable _ _, h
  | .operands _ _ _ _ _, h => by
      obtain ⟨rfl, rfl⟩ := Prod.mk.inj (Option.some.inj h)
      rfl

namespace Pipeline

/-- **The probes of a run act** if what they report does, and only then.  Whatever the configuration
and the files, as long as the parser's spans fit the texts and names hold nothing: the run succeeds,
every edit of every file announces its notices, the probe of each notice evaluates its arguments, and
one of them holds a call, an assignment or a step exactly when what the notice reports does: a pointer
that is no name, the memory that is reached, a size of the variable, or an operand but for its
steps. -/
theorem exists_acts_of_perform (config : RunSettings) (validateOutput dryRun : Bool)
    (files : List SourceFile) (hfiles : ∀ file ∈ files, file.SpansFit)
    (hnames : ∀ file ∈ files, ∀ u, file.unit? = some u → u.HasPlainNames) :
    ∃ summary, ((build config.selectedPasses validateOutput dryRun).perform files).1 =
        .ok summary ∧
      ∀ (place : Nat) (u : SourceUnit), (files.map (·.unit?))[place]? = some (some u) →
        ∃ (file : FileSummary) (edits : List Edit), summary.files[place]? = some file ∧
          u.ComesOut edits file ∧
            ∀ edit ∈ edits, ∃ r m ns, edit.IsAnnounced u r m ns ∧
              ∀ n ∈ ns,
                (∀ c format, n.1.probe? n.2 = some (c, format) → n.1.tail u n.2 =
                  Probe.statement c n.2 format (n.1.args.map (·.spelling u))) ∧
                ((∃ a ∈ n.1.args, a.acts u) ↔ n.1.Acts u) := by
  obtain ⟨summary, hrun, hout⟩ := exists_notices config validateOutput dryRun files hfiles
  refine ⟨summary, hrun, fun place u hunit => ?_⟩
  obtain ⟨file, edits, hfile, hcomes, hedits⟩ := hout place u hunit
  obtain ⟨t, hu⟩ := isRooted_units files u (List.mem_of_getElem? hunit)
  obtain ⟨origin, horigin, hunit⟩ := List.mem_map.mp (List.mem_of_getElem? hunit)
  refine ⟨file, edits, hfile, hcomes, fun edit hedit => ?_⟩
  obtain ⟨r, m, ns, hannounced⟩ := hedits edit hedit
  refine ⟨r, m, ns, hannounced, fun n hn => ⟨fun c format => Notice.tail_of_probe?, ?_⟩⟩
  obtain ⟨hwithin, -⟩ := hannounced.listed.insertive.of_offers hu hannounced.offers
  exact Notice.exists_acts_iff (hnames origin horigin u hunit) hu hwithin.root
    (hannounced.announces.isAbout hn)

/-! ## A stepped subscript -/

/-- A function that returns what a pointer in an array points to, and steps the index. -/
def steppedText : String := "int f(int **p, int i) \x7b return *p[i++]; \x7d\n"

/-- The tree of the function. -/
def steppedTree : Tree :=
  .node .sourceUnit none ⟨0, 42⟩ false
    [.node .functionDefinition none ⟨0, 41⟩ false
       [.node (.other "primitive_type") (some .type) ⟨0, 3⟩ false [],
        .node .functionDeclarator (some .declarator) ⟨4, 21⟩ false
          [.node .identifier (some .declarator) ⟨4, 5⟩ false [],
           .node (.other "parameter_list") (some .parameters) ⟨5, 21⟩ false
             [.node (.token "(") none ⟨5, 6⟩ false [],
              .node .parameterDeclaration none ⟨6, 13⟩ false
                [.node (.other "primitive_type") (some .type) ⟨6, 9⟩ false [],
                 .node .pointerDeclarator (some .declarator) ⟨10, 13⟩ false
                   [.node (.token "*") none ⟨10, 11⟩ false [],
                    .node .pointerDeclarator (some .declarator) ⟨11, 13⟩ false
                      [.node (.token "*") none ⟨11, 12⟩ false [],
                       .node .identifier (some .declarator) ⟨12, 13⟩ false []]]],
              .node (.token ",") none ⟨13, 14⟩ false [],
              .node .parameterDeclaration none ⟨15, 20⟩ false
                [.node (.other "primitive_type") (some .type) ⟨15, 18⟩ false [],
                 .node .identifier (some .declarator) ⟨19, 20⟩ false []],
              .node (.token ")") none ⟨20, 21⟩ false []]],
        .node .compoundStatement (some .body) ⟨22, 41⟩ false
          [.node (.token "\x7b") none ⟨22, 23⟩ false [],
           .node .returnStatement none ⟨24, 39⟩ false
             [.node (.token "return") none ⟨24, 30⟩ false [],
              .node .pointerExpression none ⟨31, 38⟩ false
                [.node (.token "*") (some .operator) ⟨31, 32⟩ false [],
                 .node .subscriptExpression (some .argument) ⟨32, 38⟩ false
                   [.node .identifier (some .argument) ⟨32, 33⟩ false [],
                    .node (.token "[") none ⟨33, 34⟩ false [],
                    .node .updateExpression (some .index) ⟨34, 37⟩ false
                      [.node .identifier (some .argument) ⟨34, 35⟩ false [],
                       .node (.token "++") (some .operator) ⟨35, 37⟩ false []],
                    .node (.token "]") none ⟨37, 38⟩ false []]],
              .node (.token ";") none ⟨38, 39⟩ false []],
           .node (.token "\x7d") none ⟨40, 41⟩ false []]]]

/-- The function as a file. -/
def steppedFile : SourceFile := ⟨"t.c", .ok steppedText, fun _ => steppedTree⟩

/-- The function as a unit. -/
def steppedUnit : SourceUnit :=
  ⟨"t.c", steppedText, .root steppedTree, NameTable.build steppedText (.root steppedTree)⟩

theorem spansFit_stepped : ∀ file ∈ [steppedFile], file.SpansFit :=
  SourceFile.spansFit_singleton (by decide)

theorem hasPlainNames_stepped :
    ∀ file ∈ [steppedFile], ∀ u, file.unit? = some u → u.HasPlainNames := by
  intro file hfile u hunit
  obtain rfl := List.mem_singleton.mp hfile
  obtain rfl := Option.some.inj hunit
  decide

/-- The probes of the function, with pointers reported. -/
theorem exists_acts_of_stepped :
    ∃ summary, ((build (RunSettings.selectedPasses { mode := some .pointer }) false true).perform
        [steppedFile]).1 = .ok summary ∧
      ∃ (file : FileSummary) (edits : List Edit), summary.files[0]? = some file ∧
        steppedUnit.ComesOut edits file ∧
          ∀ edit ∈ edits, ∃ r m ns, edit.IsAnnounced steppedUnit r m ns ∧
            ∀ n ∈ ns,
              (∀ c format, n.1.probe? n.2 = some (c, format) → n.1.tail steppedUnit n.2 =
                Probe.statement c n.2 format (n.1.args.map (·.spelling steppedUnit))) ∧
              ((∃ a ∈ n.1.args, a.acts steppedUnit) ↔ n.1.Acts steppedUnit) := by
  obtain ⟨summary, hrun, hout⟩ := exists_acts_of_perform { mode := some .pointer } false true
    [steppedFile] spansFit_stepped hasPlainNames_stepped
  exact ⟨summary, hrun, hout 0 steppedUnit rfl⟩

/-- The subscript that is dereferenced. -/
def steppedAccess : Node :=
  .child (.child (.child (.child (.child (.root steppedTree) 0 (steppedTree.children[0])) 2
    (steppedTree.children[0].children[2])) 1 (steppedTree.children[0].children[2].children[1])) 1
      (steppedTree.children[0].children[2].children[1].children[1])) 1
        (steppedTree.children[0].children[2].children[1].children[1].children[1])

theorem placeOf_steppedAccess : steppedAccess.PlaceOf steppedTree :=
  ⟨⟨⟨⟨⟨rfl, rfl⟩, rfl⟩, rfl⟩, rfl⟩, rfl⟩

/-- The instrument pass in the mode of pointers. -/
def pointerPass : Pass := .ofKind { mode := some .pointer } .instrument

/-- The rule that reports subscripts, unless they are assigned. -/
def subscriptRule : Rule := Observation.pointerSet.rules.get ⟨2, by decide⟩

/-- The rules before it are about names. -/
theorem exists_pointerSet_eq : ∃ before after,
    Observation.pointerSet = .firstOf (before ++ subscriptRule :: after) ∧
      ∀ s ∈ before, s.query = .ok (.ofPattern (Condition.anyOf [.identifier])) :=
  ⟨Observation.pointerSet.rules.take 2, Observation.pointerSet.rules.drop 3, rfl,
    List.forall_mem_cons.mpr ⟨rfl, List.forall_mem_singleton.mpr rfl⟩⟩

/-- The marker of the subscript and its probe. -/
def steppedReport : String :=
  marker (some 0) "VARREF_POINTER" ["int *", "p[i++]"] ++
    Probe.statement .ptr 0 "PTR:0:%p" [(Evaluated.value steppedAccess).spelling steppedUnit]

/-- What the rule makes of the subscript. -/
theorem accept?_stepped :
    (subscriptRule.accept? steppedUnit ⟨steppedAccess, [("root", steppedAccess)]⟩).map (fun m =>
      ((subscriptRule.editsOf ⟨steppedUnit, {}⟩ m).run {}).toOption) =
        some (some ([⟨24, 0, steppedReport⟩], (Numbering.next {} .ptr).2)) := by
  decide +kernel

/-- The subscript is visited. -/
theorem exists_visit_stepped : ∃ vs v, pointerPass.visits steppedUnit .traversal = .ok vs ∧ v ∈ vs ∧
    (v.rule.editsOf ⟨steppedUnit, {}⟩ v.found).run {} =
      .ok ([⟨24, 0, steppedReport⟩], (Numbering.next {} .ptr).2) := by
  have hpass : pointerPass.Insertive := Pass.insertive_ofKind _ .instrument
  have hset : Observation.pointerSet ∈ pointerPass.sets := .tail _ (.tail _ (.tail _ (.head _)))
  obtain ⟨vs, hvs⟩ := hpass.exists_visits (t := steppedTree) (u := steppedUnit) rfl .traversal
  obtain ⟨base, ws, hws, hmem⟩ := Pass.exists_visits_of_mem_sets hvs hset
  have hrule : subscriptRule ∈ pointerPass.rules :=
    List.mem_flatMap.mpr ⟨_, hset, List.getElem_mem _⟩
  obtain ⟨ms, hms, -⟩ := (hpass.of_mem_rules hrule).exists_matchesIn (t := steppedTree)
    (u := steppedUnit) rfl
  obtain ⟨m, haccept, hm⟩ := Option.map_eq_some_iff.mp accept?_stepped
  have hfound : m ∈ ms := (Rule.mem_matchesIn_iff rfl
    (Condition.plain_anyOf .subscriptExpression) rfl hms).mpr
      ⟨steppedAccess, ⟨placeOf_steppedAccess.mem_walk, rfl⟩, haccept⟩
  obtain ⟨before, after, hsplit, hnames⟩ := exists_pointerSet_eq
  rw [hsplit, RuleSet.visits] at hws
  have hbefore : ∀ s ∈ before, ∀ others, s.matchesIn steppedUnit = .ok others →
      ∀ m' ∈ others, m'.root.sameAs m.root = false := fun s hs others hothers m' hm' => by
    rw [Rule.root_of_accept? haccept]
    exact Rule.sameAs_eq_false_of_kind (hnames s hs) rfl hothers hm' placeOf_steppedAccess
      (by decide)
  obtain ⟨i, hv⟩ := RuleSet.exists_mem_visitsOfFirst rfl hms hfound hws rfl hbefore
  exact ⟨vs, _, hvs, hmem _ hv, eq_ok_of_toOption hm⟩

/-- **A probe that steps the index**: it evaluates the subscript just as the statement does. -/
theorem exists_acting_probe :
    SourceUnit.ofTree? "t.c" steppedText steppedTree = .ok steppedUnit ∧
      steppedUnit.HasPlainNames ∧
        ∃ p ∈ (build [pointerPass] false true).passes, ∃ vs v numbering,
          p.visits steppedUnit .traversal = .ok vs ∧ v ∈ vs ∧
            (v.rule.editsOf ⟨steppedUnit, {}⟩ v.found).run {} =
              .ok ([⟨24, 0, steppedReport⟩], numbering) ∧
                ∃ a : Evaluated, steppedReport =
                    marker (some 0) "VARREF_POINTER" ["int *", "p[i++]"] ++
                      Probe.statement .ptr 0 "PTR:0:%p" [a.spelling steppedUnit] ∧
                  a.spelling steppedUnit = "p[i++]" ∧ a.acts steppedUnit := by
  obtain ⟨vs, v, hvs, hv, hrun⟩ := exists_visit_stepped
  exact ⟨rfl, by decide, pointerPass, .tail _ (.head _), vs, v, _, hvs, hv, hrun,
    .value steppedAccess, rfl, by decide, rfl⟩

end Pipeline

end ProbeWeaver
