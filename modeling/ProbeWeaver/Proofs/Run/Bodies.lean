import ProbeWeaver.Proofs.Passes.Anchors
import ProbeWeaver.Proofs.Passes.Insertive

/-!
# Proofs/Run/Bodies — a pipeline's statements before governed blocks

A probe before the block that an `if`, an `else` or a loop governs takes the block's place as body.
A pipeline puts its statements there exactly for constructs that hang loose in the block.

* `Pipeline.isGoverned_anchor_iff` — the exact condition, for every edit of every pass.
* `Pipeline.exists_probe_before_body` — such a probe, for a statement under `#ifdef`.
-/

namespace ProbeWeaver.Pipeline

open Node (HangsLoose)

variable {t : Tree} {u : SourceUnit} {passes : List Pass} {validateOutput dryRun : Bool} {p : Pass}
  {phase : Phase} {vs : List Visit} {v : Visit} {e : EditTemplate} {n : Node} {name : String}

/-- **A pipeline's statements before governed blocks.**  The slot above a construct is a governed
block exactly when the construct hangs loose in it.  Of whatever passes a pipeline is built, an edit
that it makes before a statement, but for the comment that marks a block, stands before a governed
block exactly when its rule goes by the slot above and the construct hangs loose in such a block. -/
theorem isGoverned_anchor_iff
    (hpasses : ∀ p ∈ passes, ∃ config kind, p = Pass.ofKind config kind)
    (hu : u.root = .root t) (hblocks : u.BodiesAreBlocks)
    (hp : p ∈ (build passes validateOutput dryRun).passes) (hvs : p.visits u phase = .ok vs)
    (hv : v ∈ vs) (hmarker : v.rule.name ≠ "log-braces") (he : e ∈ v.rule.edits)
    (hanchor : e.anchor = .before name) (hn : v.found.node? name = some n) :
    (∀ k b : Node, (k.slotAround? = some b ∧ b.isGoverned = true) ↔ HangsLoose b k) ∧
      (n.isGoverned = true ↔
        (name, Condition.slotAround) ∈ v.rule.finders ∧ ∃ b, HangsLoose b v.found.root) := by
  refine ⟨fun k b => Node.slotAround?_isGoverned_iff, ?_⟩
  obtain ⟨config, kind, rfl⟩ : ∃ config kind, p = Pass.ofKind config kind := by
    rcases mem_passes_build hp with rfl | hp
    · exact ⟨{}, .braces, rfl⟩
    · exact hpasses p hp
  obtain ⟨hrule, ms, hms, hfound⟩ := Pass.mem_visits hvs hv
  obtain ⟨hoffers, hfilters⟩ := Rule.offers_of_mem_matchesIn hms hfound
  exact ((Pass.listed_of_mem hrule).sparesBlocks hmarker).isGoverned_iff hu hblocks hoffers hfilters
    (Rule.mem_beforeNames he hanchor) hn

/-! ## A statement under `#ifdef` -/

/-- A function whose `if` governs a block with a statement under `#ifdef`. -/
def guardedText : String :=
  "void f(int x) \x7bif (x) \x7b\n#ifdef A\nx = x + 1;\n#endif\n\x7d\x7d\n"

/-- The tree of the function. -/
def guardedTree : Tree :=
  .node .sourceUnit none ⟨0, 54⟩ false
    [.node .functionDefinition none ⟨0, 53⟩ false
        [.node (.other "primitive_type") (some .type) ⟨0, 4⟩ false [],
          .node .functionDeclarator (some .declarator) ⟨5, 13⟩ false
            [.node .identifier (some .declarator) ⟨5, 6⟩ false [],
              .node (.other "parameter_list") (some .parameters) ⟨6, 13⟩ false
                [.node (.token "(") none ⟨6, 7⟩ false [],
                  .node .parameterDeclaration none ⟨7, 12⟩ false
                    [.node (.other "primitive_type") (some .type) ⟨7, 10⟩ false [],
                      .node .identifier (some .declarator) ⟨11, 12⟩ false []],
                  .node (.token ")") none ⟨12, 13⟩ false []]],
          .node .compoundStatement (some .body) ⟨14, 53⟩ false
            [.node (.token "\x7b") none ⟨14, 15⟩ false [],
              .node .ifStatement none ⟨15, 52⟩ false
                [.node (.token "if") none ⟨15, 17⟩ false [],
                  .node .parenthesizedExpression (some .condition) ⟨18, 21⟩ false
                    [.node (.token "(") none ⟨18, 19⟩ false [],
                      .node .identifier none ⟨19, 20⟩ false [],
                      .node (.token ")") none ⟨20, 21⟩ false []],
                  .node .compoundStatement (some .consequence) ⟨22, 52⟩ false
                    [.node (.token "\x7b") none ⟨22, 23⟩ false [],
                      .node .preprocIfdef none ⟨24, 50⟩ false
                        [.node (.token "#ifdef") none ⟨24, 30⟩ false [],
                          .node .identifier (some .name) ⟨31, 32⟩ false [],
                          .node .expressionStatement none ⟨33, 43⟩ false
                            [.node .assignmentExpression none ⟨33, 42⟩ false
                                [.node .identifier (some .left) ⟨33, 34⟩ false [],
                                  .node (.token "=") (some .operator) ⟨35, 36⟩ false [],
                                  .node .binaryExpression (some .right) ⟨37, 42⟩ false
                                    [.node .identifier (some .left) ⟨37, 38⟩ false [],
                                      .node (.token "+") (some .operator) ⟨39, 40⟩ false [],
                                      .node .numberLiteral (some .right) ⟨41, 42⟩ false []]],
                              .node (.token ";") none ⟨42, 43⟩ false []],
                          .node (.token "#endif") none ⟨44, 50⟩ false []],
                      .node (.token "\x7d") none ⟨51, 52⟩ false []]],
              .node (.token "\x7d") none ⟨52, 53⟩ false []]]]

/-- The function as a file. -/
def guardedUnit : SourceUnit :=
  ⟨"t.c", guardedText, .root guardedTree, NameTable.build guardedText (.root guardedTree)⟩

/-- The instrument pass in the mode of integers. -/
def integerPass : Pass := .ofKind { mode := some .integer } .instrument

/-- **A match that the rule of integers makes edits of** is visited. -/
theorem exists_visit_of_made {t : Tree} {u : SourceUnit} {edits : List Edit} {numbering : Numbering}
    (hu : u.root = .root t) (hmade : (match Observation.integerRule.matchesIn u with
      | .ok ms => ms.map fun m => ((Observation.integerRule.editsOf ⟨u, {}⟩ m).run {}).toOption
      | .error _ => []) = [some (edits, numbering)]) :
    ∃ vs v, integerPass.visits u .traversal = .ok vs ∧ v ∈ vs ∧
      (v.rule.editsOf ⟨u, {}⟩ v.found).run {} = .ok (edits, numbering) := by
  have hpass : integerPass.Insertive := Pass.insertive_ofKind _ .instrument
  obtain ⟨vs, hvs⟩ := hpass.exists_visits hu .traversal
  obtain ⟨ms, hms, -⟩ := Observation.insertive_integerRule.exists_matchesIn hu
  rw [hms] at hmade
  obtain ⟨m, rfl, hm⟩ := List.map_eq_singleton_iff.mp hmade
  have hsingle : RuleSet.single Observation.integerRule ∈ integerPass.sets :=
    .tail _ (.tail _ (.tail _ (.head _)))
  obtain ⟨index, hv⟩ := Pass.exists_mem_visits hvs hsingle hms List.mem_cons_self
  exact ⟨vs, _, hvs, hv, eq_ok_of_toOption hm⟩

/-- The probe of the operands of `x + 1`. -/
def sumProbe : String :=
  "/*I:ID0:VARREF_INTEGER:int:x:int:1:+:*/if (print_flag_int[0]!=2) \x7b" ++
    "printf(\"INT:0:%lld:%lld\\n\",(long long)(x),(long long)(1));print_flag_int[0]++;\x7d\n"

/-- What the rule of integers makes of the file: for each match the block that it goes by, and the
edits. -/
theorem matches_guarded :
    (match Observation.integerRule.matchesIn guardedUnit with
      | .ok ms => ms.map fun m =>
        ((m.node? "stmt").map fun n => (n.start, n.isGoverned),
          ((Observation.integerRule.editsOf ⟨guardedUnit, {}⟩ m).run {}).toOption.map (·.1))
      | .error _ => []) = [(some (22, true), some [⟨22, 0, sumProbe⟩])] := by
  decide +kernel

theorem exists_visit_guarded : ∃ vs v n numbering,
    integerPass.visits guardedUnit .traversal = .ok vs ∧ v ∈ vs ∧
      v.rule = Observation.integerRule ∧ v.found.node? "stmt" = some n ∧ n.start = 22 ∧
        n.isGoverned = true ∧
          (v.rule.editsOf ⟨guardedUnit, {}⟩ v.found).run {} =
            .ok ([⟨22, 0, sumProbe⟩], numbering) := by
  have hpass : integerPass.Insertive := Pass.insertive_ofKind _ .instrument
  obtain ⟨vs, hvs⟩ := hpass.exists_visits (t := guardedTree) (u := guardedUnit) rfl .traversal
  obtain ⟨ms, hms, -⟩ := Observation.insertive_integerRule.exists_matchesIn (t := guardedTree)
    (u := guardedUnit) rfl
  have hmatches := matches_guarded
  rw [hms] at hmatches
  obtain ⟨m, rfl, hm⟩ := List.map_eq_singleton_iff.mp hmatches
  obtain ⟨hnode, hedits⟩ := Prod.mk.inj hm
  obtain ⟨n, hn, hblock⟩ := Option.map_eq_some_iff.mp hnode
  obtain ⟨hstart, hgoverned⟩ := Prod.mk.inj hblock
  obtain ⟨⟨edits, numbering⟩, hrun, rfl⟩ := Option.map_eq_some_iff.mp hedits
  have hsingle : RuleSet.single Observation.integerRule ∈ integerPass.sets :=
    .tail _ (.tail _ (.tail _ (.head _)))
  obtain ⟨index, hv⟩ := Pass.exists_mem_visits hvs hsingle hms List.mem_cons_self
  refine ⟨vs, _, n, numbering, hvs, hv, rfl, hn, hstart, hgoverned, ?_⟩
  exact eq_ok_of_toOption hrun

/-- **A probe before a body**: the operands of the statement under `#ifdef` are reported right
before the block of the `if`, which the header then no longer governs. -/
theorem exists_probe_before_body :
    SourceUnit.ofTree? "t.c" guardedText guardedTree = .ok guardedUnit ∧
      ∃ p ∈ (build [integerPass] false true).passes, ∃ vs v n numbering,
        p.visits guardedUnit .traversal = .ok vs ∧ v ∈ vs ∧ v.found.node? "stmt" = some n ∧
          n.isGoverned = true ∧
            (v.rule.editsOf ⟨guardedUnit, {}⟩ v.found).run {} =
              .ok ([⟨n.start, 0, sumProbe⟩], numbering) := by
  obtain ⟨vs, v, n, numbering, hvs, hv, -, hn, hstart, hgoverned, hedits⟩ := exists_visit_guarded
  refine ⟨rfl, integerPass, .tail _ (.head _), vs, v, n, numbering, hvs, hv, hn, hgoverned, ?_⟩
  rw [hstart]
  exact hedits

/-- The condition on that probe. -/
theorem isGoverned_anchor_guarded : ∃ vs v n,
    integerPass.visits guardedUnit .traversal = .ok vs ∧ v ∈ vs ∧
      v.found.node? "stmt" = some n ∧ n.isGoverned = true ∧
        ("stmt", Condition.slotAround) ∈ v.rule.finders ∧ ∃ b, HangsLoose b v.found.root := by
  obtain ⟨vs, v, n, numbering, hvs, hv, hrule, hn, -, hgoverned, -⟩ := exists_visit_guarded
  have hedit : ⟨.before "stmt", Observation.integerOperands⟩ ∈ v.rule.edits := by
    rw [hrule]
    exact List.mem_cons_self
  have hmarker : v.rule.name ≠ "log-braces" := by
    rw [hrule]
    decide
  have hpass : integerPass ∈ (build [integerPass] false true).passes := .tail _ (.head _)
  refine ⟨vs, v, n, hvs, hv, hn, hgoverned, ?_⟩
  have hcondition := isGoverned_anchor_iff (t := guardedTree)
    (fun p hp => ⟨_, _, List.mem_singleton.mp hp⟩) rfl (by decide) hpass hvs hv hmarker hedit rfl hn
  exact hcondition.2.mp hgoverned

end ProbeWeaver.Pipeline
