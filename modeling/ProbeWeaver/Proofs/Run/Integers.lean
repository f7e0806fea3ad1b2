import ProbeWeaver.Proofs.Passes.Integers
import ProbeWeaver.Proofs.Run.Bodies
import ProbeWeaver.Proofs.Run.Effects

/-!
# Proofs/Run/Integers — operands reported with their signs

The probe of two operands prints each by the spelling of the type that its marker reports.  That type
is the integer type of the operand, with its sign, if integer types stand behind both operands and the
names that are kept tell their sign (`Pipeline.exists_integers_of_perform`); a kept `size_t` does not.
-/

namespace ProbeWeaver

open RunState

namespace Pipeline

/-- **The integers that a run reports.**  Whatever the configuration and the files, as long as the
parser's spans fit the texts, no type definition takes a builtin name and each binary expression has
one left and one right operand: the run succeeds and every edit of every file announces its notices.
A notice of two operands prints each by the spelling of its reported type; and each of these types has
a builtin integer type behind it, whatever names lead there, and is printed with its sign, exactly
when integer types stand behind both operands and the reported names tell their sign. -/
theorem exists_integers_of_perform (config : RunSettings) (validateOutput dryRun : Bool)
    (files : List SourceFile) (hfiles : ∀ file ∈ files, file.SpansFit)
    (hkeeps : ∀ file ∈ files, ∀ u, file.unit? = some u → u.names.KeepsBuiltins)
    (hpairs : ∀ file ∈ files, ∀ u, file.unit? = some u → u.PairsOperands) :
    ∃ summary, ((build config.selectedPasses validateOutput dryRun).perform files).1 =
        .ok summary ∧
      ∀ (place : Nat) (u : SourceUnit), (files.map (·.unit?))[place]? = some (some u) →
        ∃ (file : FileSummary) (edits : List Edit), summary.files[place]? = some file ∧
          u.ComesOut edits file ∧
            ∀ edit ∈ edits, ∃ r m ns, edit.IsAnnounced u r m ns ∧
              ∀ op lt rt left right id, (Notice.operands op lt rt left right, id) ∈ ns →
                (Notice.operands op lt rt left right).tail u id = Probe.statement .int id
                    ("INT:" ++ toString id ++ ":" ++ (Observation.printConversion lt.render).1 ++
                      ":" ++ (Observation.printConversion rt.render).1)
                    ["(" ++ (Observation.printConversion lt.render).2 ++ ")(" ++
                        Observation.operandText u left ++ ")",
                      "(" ++ (Observation.printConversion rt.render).2 ++ ")(" ++
                        Observation.operandText u right ++ ")"] ∧
                  ∃ L R, u.typeOf left = some L ∧ u.typeOf right = some R ∧
                    (u.names.ReportsInteger lt ∧ u.names.ReportsInteger rt ↔
                      (u.names.IsIntegral L ∧ u.names.IsIntegral R) ∧
                        u.names.TellsSign lt ∧ u.names.TellsSign rt) := by
  obtain ⟨summary, hrun, hout⟩ := exists_notices config validateOutput dryRun files hfiles
  refine ⟨summary, hrun, fun place u hunit => ?_⟩
  obtain ⟨file, edits, hfile, hcomes, hedits⟩ := hout place u hunit
  obtain ⟨t, hu⟩ := isRooted_units files u (List.mem_of_getElem? hunit)
  obtain ⟨origin, horigin, hunit⟩ := List.mem_map.mp (List.mem_of_getElem? hunit)
  refine ⟨file, edits, hfile, hcomes, fun edit hedit => ?_⟩
  obtain ⟨r, m, ns, hannounced⟩ := hedits edit hedit
  refine ⟨r, m, ns, hannounced, fun op lt rt left right id hn => ⟨rfl, ?_⟩⟩
  obtain ⟨hop, hleft, hright, htypes⟩ := hannounced.announces.isAbout hn
  obtain ⟨hops, hl, hr⟩ := hannounced.listed.operands hu hannounced.offers hannounced.filters hleft
    hright hop
  obtain ⟨hwithin, -⟩ := hannounced.listed.insertive.of_offers hu hannounced.offers
  have hfield {c : Node} {f : Field} (hf : f ∈ [Field.left, .right])
      (hc : Rule.IsPart .binaryExpression [f] m.root c) : m.root.field? f = some c := by
    obtain ⟨g, hg, hfield⟩ := hc.field
    refine Node.field?_of_length_le ?_ hc.mem (List.mem_singleton.mp hg ▸ hfield)
    exact hpairs origin horigin u hunit m.root (hu ▸ hwithin.root.mem_walk) hc.kind f hf
  exact Observation.reportsInteger_iff (hkeeps origin horigin u hunit) hl.kind hop hops
    (hfield (.head _) hl) (hfield (.tail _ (.head _)) hr) htypes

/-! ## A scaled size -/

/-- A function that scales a size. -/
def scaledText : String := "size_t f(size_t n) \x7b return n * 2; \x7d\n"

/-- The tree of the function. -/
def scaledTree : Tree :=
  .node .sourceUnit none ⟨0, 37⟩ false
    [.node .functionDefinition none ⟨0, 36⟩ false
       [.node (.other "primitive_type") (some .type) ⟨0, 6⟩ false [],
        .node .functionDeclarator (some .declarator) ⟨7, 18⟩ false
          [.node .identifier (some .declarator) ⟨7, 8⟩ false [],
           .node (.other "parameter_list") (some .parameters) ⟨8, 18⟩ false
             [.node (.token "(") none ⟨8, 9⟩ false [],
              .node .parameterDeclaration none ⟨9, 17⟩ false
                [.node (.other "primitive_type") (some .type) ⟨9, 15⟩ false [],
                 .node .identifier (some .declarator) ⟨16, 17⟩ false []],
              .node (.token ")") none ⟨17, 18⟩ false []]],
        .node .compoundStatement (some .body) ⟨19, 36⟩ false
          [.node (.token "\x7b") none ⟨19, 20⟩ false [],
           .node .returnStatement none ⟨21, 34⟩ false
             [.node (.token "return") none ⟨21, 27⟩ false [],
              .node .binaryExpression none ⟨28, 33⟩ false
                [.node .identifier (some .left) ⟨28, 29⟩ false [],
                 .node (.token "*") (some .operator) ⟨30, 31⟩ false [],
                 .node .numberLiteral (some .right) ⟨32, 33⟩ false []],
              .node (.token ";") none ⟨33, 34⟩ false []],
           .node (.token "\x7d") none ⟨35, 36⟩ false []]]]

/-- The function as a file. -/
def scaledFile : SourceFile := ⟨"t.c", .ok scaledText, fun _ => scaledTree⟩

/-- The function as a unit. -/
def scaledUnit : SourceUnit :=
  ⟨"t.c", scaledText, .root scaledTree, NameTable.build scaledText (.root scaledTree)⟩

theorem spansFit_scaled : ∀ file ∈ [scaledFile], file.SpansFit :=
  SourceFile.spansFit_singleton (by decide)

theorem keepsBuiltins_scaled :
    ∀ file ∈ [scaledFile], ∀ u, file.unit? = some u → u.names.KeepsBuiltins := by
  intro file hfile u hunit
  obtain rfl := List.mem_singleton.mp hfile
  obtain rfl := Option.some.inj hunit
  decide

theorem pairsOperands_scaled :
    ∀ file ∈ [scaledFile], ∀ u, file.unit? = some u → u.PairsOperands := by
  intro file hfile u hunit
  obtain rfl := List.mem_singleton.mp hfile
  obtain rfl := Option.some.inj hunit
  decide

/-- The integers that are reported of the scaled size. -/
theorem exists_integers_of_scaled :
    ∃ summary, ((build (RunSettings.selectedPasses { mode := some .integer }) false true).perform
        [scaledFile]).1 = .ok summary ∧
      ∃ (file : FileSummary) (edits : List Edit), summary.files[0]? = some file ∧
        scaledUnit.ComesOut edits file ∧
          ∀ edit ∈ edits, ∃ r m ns, edit.IsAnnounced scaledUnit r m ns ∧
            ∀ op lt rt left right id, (Notice.operands op lt rt left right, id) ∈ ns →
              (Notice.operands op lt rt left right).tail scaledUnit id = Probe.statement .int id
                  ("INT:" ++ toString id ++ ":" ++ (Observation.printConversion lt.render).1 ++
                    ":" ++ (Observation.printConversion rt.render).1)
                  ["(" ++ (Observation.printConversion lt.render).2 ++ ")(" ++
                      Observation.operandText scaledUnit left ++ ")",
                    "(" ++ (Observation.printConversion rt.render).2 ++ ")(" ++
                      Observation.operandText scaledUnit right ++ ")"] ∧
                ∃ L R, scaledUnit.typeOf left = some L ∧ scaledUnit.typeOf right = some R ∧
                  (scaledUnit.names.ReportsInteger lt ∧ scaledUnit.names.ReportsInteger rt ↔
                    (scaledUnit.names.IsIntegral L ∧ scaledUnit.names.IsIntegral R) ∧
                      scaledUnit.names.TellsSign lt ∧ scaledUnit.names.TellsSign rt) := by
  obtain ⟨summary, hrun, hout⟩ := exists_integers_of_perform { mode := some .integer } false true
    [scaledFile] spansFit_scaled keepsBuiltins_scaled pairsOperands_scaled
  exact ⟨summary, hrun, hout 0 scaledUnit rfl⟩

/-- The marker of the scaled size and its probe. -/
def scaledReport : String :=
  marker (some 0) "VARREF_INTEGER" ["size_t", "n", "unsigned long", "2", "*"] ++
    Probe.statement .int 0 "INT:0:%lld:%llu" ["(long long)(n)", "(unsigned long long)(2)"]

/-- What the rule of integers makes of the file. -/
theorem matches_scaled :
    (match Observation.integerRule.matchesIn scaledUnit with
      | .ok ms => ms.map fun m =>
        ((Observation.integerRule.editsOf ⟨scaledUnit, {}⟩ m).run {}).toOption
      | .error _ => []) =
      [some ([⟨21, 0, scaledReport⟩], (Numbering.next {} .int).2)] := by
  decide +kernel

/-- **An unsigned operand that is printed as a signed one**: the size is reported under its name, and an
unsigned type stands behind it, but the name spells no sign. -/
theorem exists_signed_size :
    SourceUnit.ofTree? "t.c" scaledText scaledTree = .ok scaledUnit ∧
      scaledUnit.names.KeepsBuiltins ∧ scaledUnit.PairsOperands ∧
        (∃ p ∈ (build [integerPass] false true).passes, ∃ vs v numbering,
          p.visits scaledUnit .traversal = .ok vs ∧ v ∈ vs ∧
            (v.rule.editsOf ⟨scaledUnit, {}⟩ v.found).run {} =
              .ok ([⟨21, 0, scaledReport⟩], numbering)) ∧
          scaledUnit.names.ResolvesTo (.plain "size_t") (.plain "unsigned long") ∧
            integerStanding? "unsigned long" = some ⟨5, false⟩ ∧
              scaledReport = marker (some 0) "VARREF_INTEGER"
                  ["size_t", "n", "unsigned long", "2", "*"] ++
                Probe.statement .int 0 "INT:0:%lld:%llu"
                  ["(long long)(n)", "(unsigned long long)(2)"] := by
  obtain ⟨vs, v, hvs, hv, hrun⟩ := exists_visit_of_made (t := scaledTree) rfl matches_scaled
  have hsize : scaledUnit.names.target? "size_t" = some (.plain "unsigned long") := by decide +kernel
  refine ⟨rfl, by decide, by decide, ⟨integerPass, .tail _ (.head _), vs, v, _, hvs, hv, hrun⟩,
    .link hsize (.settled ?_), rfl, rfl⟩
  exact NameTable.isSettled_named_iff.mpr (by decide +kernel)

end Pipeline

end ProbeWeaver
