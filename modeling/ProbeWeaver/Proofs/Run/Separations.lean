import ProbeWeaver.Proofs.Run.Bracing
import ProbeWeaver.Proofs.Typing.Binding

/-!
# Proofs/Run/Separations — names that new braces take away from their uses

New braces around a statement end the scope of what is declared in it.  What an `if`, an `else` or a
loop governs is a block anyhow, so nothing changes there; but the statement behind a label is none,
and a name that is declared in it can be used behind it.

* `Scoping.Binds.separated_iff` — which braces stand around a declaration and not around its use.
* `Pipeline.exists_separations_of_perform` — the braces that a run puts in.
-/

namespace ProbeWeaver

open Node (PlaceOf Unblocked Controls)
open RunState Text
open Scoping (Declared Binds)

variable {t : Tree} {source : String} {n c : Node} {e : Declared} {place : Nat}

namespace Node

/-- What an `if`, an `else` or a loop governs is a body. -/
theorem Controls.isBody_or (h : n.Controls c) :
    c.isBody = true ∨ n.kind = .caseStatement ∧ n.labelled? = some c := by
  have hfills {f : Field} (hc : (n.namedFillers f).head? = some c) :
      c.parent? = some n ∧ n.fillsField f c = true := by
    have hfiller := (List.mem_filter.mp (List.mem_of_head? hc)).1
    have hchild := (List.mem_filter.mp hfiller).1
    refine ⟨parent?_of_mem_children hchild, ?_⟩
    rw [fillsField_of_mem_children hchild]
    exact (List.mem_filter.mp hfiller).2
  cases h with
  | thenBranch hkind hc =>
    obtain ⟨hparent, hfield⟩ := hfills hc
    refine .inl ?_
    rw [isBody, hparent]
    dsimp only
    rw [hkind, hfield]
    rfl
  | elseBranch hkind _ hc =>
    refine .inl ?_
    obtain ⟨a, ha, ⟨hclause, hc⟩ | ⟨-, rfl⟩⟩ := elseBranch?_cases hc
    · have hparent := parent?_of_mem_children (List.mem_filter.mp (List.mem_of_head? hc)).1
      rw [isBody, hparent]
      dsimp only
      rw [hclause]
    · have hchild := List.mem_of_find?_eq_some ha
      rw [isBody, parent?_of_mem_children hchild]
      dsimp only
      rw [hkind, fillsField_of_mem_children hchild, fillsField_of_mem_children hchild,
        List.find?_some ha, Bool.or_true]
  | loopBody hkind hc =>
    obtain ⟨hparent, hfield⟩ := hfills hc
    refine .inl ?_
    simp only [List.mem_cons, List.not_mem_nil, or_false] at hkind
    rw [isBody, hparent]
    dsimp only
    rcases hkind with h | h | h <;> rw [h] <;> exact hfield
  | labelled hkind hc => exact .inr ⟨hkind, hc⟩

/-- **The text of a place** lies in that of another one. -/
def Encloses (c n : Node) : Prop := c.start ≤ n.start ∧ n.stop ≤ c.stop

/-- **A statement behind a label.** -/
def IsLabelled (t : Tree) (c : Node) : Prop :=
  ∃ label : Node, label.PlaceOf t ∧ label.kind = .caseStatement ∧ label.labelled? = some c

/-- **A statement declares a name** for a scope around it. -/
def Exposes (c : Node) (e : Declared) : Prop :=
  e.name.isWithin c = true ∧ e.scope.isWithin c = false

end Node

namespace Scoping

/-- **Which braces separate a use from its declaration**: those around a statement behind a label
that declares the name for a scope around it, and the use comes behind the statement. -/
theorem Binds.separated_iff (ht : t.isLaidOut = true) (h : Binds source (.root t) n e)
    (hn : n.PlaceOf t) (hc : Unblocked t Controls c) :
    c.Encloses e.name ∧ ¬ c.Encloses n ↔ c.IsLabelled t ∧ c.Exposes e ∧ c.stop ≤ n.start := by
  obtain ⟨-, p, hp, -, hcontrols⟩ := hc
  have hplace := hcontrols.placeOf hp
  obtain ⟨hname, hstop, hleaf, hscope⟩ := declared_spec ht h.mem
  obtain ⟨htext, hstart, haround⟩ := h.visible
  have hnonempty := hn.start_lt_stop ht h.use.spelled
  have hnonempty' := hname.start_lt_stop ht (htext ▸ h.use.spelled)
  constructor
  · rintro ⟨⟨hfrom, hto⟩, hout⟩
    have hwithin : e.name.isWithin c = true := by
      rcases PlaceOf.within_or_apart ht hname hplace with h | h | h | h
      · exact h
      · rw [hplace.eq_of_isWithin_leaf hname h hleaf]
        exact Node.isWithin_self e.name
      · omega
      · omega
    have hexposes : e.scope.isWithin c = false := Bool.eq_false_iff.mpr fun hscope =>
      hout (hn.span_isWithin ht hplace (Node.isWithin_trans haround hscope))
    have hopen := (hname.scope?_isWithin_or hplace hscope hwithin).resolve_left
      (Bool.eq_false_iff.mp hexposes)
    obtain ⟨hkind, hlabelled⟩ := hcontrols.isBody_or.resolve_left fun hbody =>
      Bool.eq_false_iff.mp hopen (Node.owns_of_isBody hbody)
    refine ⟨⟨p, hp, hkind, hlabelled⟩, ⟨hwithin, hexposes⟩, ?_⟩
    rcases PlaceOf.within_or_apart ht hn hplace with h' | h' | h' | h'
    · exact absurd (hn.span_isWithin ht hplace h') hout
    · obtain rfl := hplace.eq_of_isWithin_leaf hn h' h.use.leaf
      exact absurd ⟨Nat.le_refl _, Nat.le_refl _⟩ hout
    · exact h'
    · omega
  · rintro ⟨-, ⟨hwithin, -⟩, hbehind⟩
    refine ⟨hname.span_isWithin ht hplace hwithin, fun hin => ?_⟩
    have hend := hin.2
    omega

end Scoping

/-! ## Declarations behind labels -/

namespace Declarator

/-- **What stands between a declarator and its name** is a declarator of it. -/
theorem kind_of_between {base : CType} {n name s : Node} (hn : n.PlaceOf t) (hs : s.PlaceOf t)
    (h : (peel source n base).1 = some name) (hname : name.isWithin s = true)
    (hwithin : s.isWithin n = true) : s.kind ∈ declaringKinds ∧
      (s = n ∨ ∃ p, s.parent? = some p ∧ p.kind ∈ declaringKinds) := by
  have hkind := kind_mem_declaringKinds h
  have hinside {inner : Node} {base' : CType} (hchild : inner ∈ n.children)
      (hinner : (peel source inner base').1 = some name) : s.kind ∈ declaringKinds ∧
        (s = n ∨ ∃ p, s.parent? = some p ∧ p.kind ∈ declaringKinds) := by
    rcases hs.eq_or_isWithin_child hn hchild (isWithin_of_peel hinner) hname hwithin with
      rfl | hinside
    · exact ⟨hkind, .inl rfl⟩
    · obtain ⟨hkind', rfl | hup⟩ :=
        kind_of_between (hn.of_mem_children hchild) hs hinner hname hinside
      · exact ⟨hkind', .inr ⟨n, Node.parent?_of_mem_children hchild, hkind⟩⟩
      · exact ⟨hkind', .inr hup⟩
  rcases peel_fst_cases h with ⟨rfl, -⟩ | ⟨inner, base', hinner | hinner, hpeel⟩
  · obtain rfl := hn.eq_of_isWithin hs hname hwithin
    exact ⟨hkind, .inl rfl⟩
  · exact hinside (List.mem_of_find?_eq_some hinner) hpeel
  · exact hinside (List.mem_filter.mp (List.mem_of_head? hinner)).1 hpeel
termination_by n.size
decreasing_by exact Node.size_lt_of_mem_children hchild

end Declarator

namespace Node

/-- Declarations behind labels and declarators are no scopes. -/
theorem owns_eq_false {p s : Node} (hkind : s.kind ∈ .declaration :: Declarator.declaringKinds)
    (hp : s.parent? = some p)
    (hparent : p.kind ∈ .caseStatement :: .declaration :: Declarator.declaringKinds) :
    s.owns n = false := by
  have hbody : s.isBody = false := Bool.eq_false_iff.mpr fun hbody => by
    obtain ⟨q, hq, hheader⟩ := isBody_parent? hbody
    obtain rfl := Option.some.inj (hp.symm.trans hq)
    exact (by decide : ∀ k ∈ [Kind.ifStatement, .elseClause, .forStatement, .whileStatement,
      .doStatement], k ∉ .caseStatement :: .declaration :: Declarator.declaringKinds)
      _ hheader hparent
  have hswitched : s.isSwitched = false := by
    have hkind : p.kind ≠ .switchStatement := fun h => absurd hparent (h ▸ by decide)
    rw [isSwitched, hp, Option.any_some, beq_false_of_ne hkind, Bool.false_and]
  obtain ⟨hblock, hlist, hfunction⟩ := (by decide : ∀ k ∈ .declaration :: Declarator.declaringKinds,
    blockKinds.contains k = false ∧ (k == .other "parameter_list") = false ∧
      (k == .functionDefinition) = false) s.kind hkind
  rw [owns, isBlock, isPrototype, hblock, hbody, hswitched, hlist, hfunction, hp]
  rfl

/-- **No scope stands between** a declaration behind a label and a name that it declares. -/
theorem IsLabelled.owns_eq_false {d : Declarator} {s : Node} (hlabel : c.IsLabelled t)
    (hkind : c.kind = .declaration) (hd : d ∈ Declarator.declarators source c) (hs : s.PlaceOf t)
    (hname : d.name.isWithin s = true) (hwithin : s.isWithin c = true) : s.owns n = false := by
  obtain ⟨label, hplace, hcase, hlabelled⟩ := hlabel
  have hchild := (List.mem_filter.mp (List.mem_of_find?_eq_some hlabelled)).1
  have hc := hplace.of_mem_children hchild
  obtain ⟨hfiller, base, hpeel⟩ := Declarator.exists_peel_of_mem_declarators hd
  have hdchild := (List.mem_filter.mp hfiller).1
  have hdeclaration : c.kind ∈ .caseStatement :: .declaration :: Declarator.declaringKinds := by
    rw [hkind]
    decide
  rcases hs.eq_or_isWithin_child hc hdchild (Declarator.isWithin_of_peel hpeel) hname hwithin with
    rfl | hinside
  · exact Node.owns_eq_false (hkind ▸ List.mem_cons_self) (parent?_of_mem_children hchild)
      (hcase ▸ List.mem_cons_self)
  · obtain ⟨hdeclaring, rfl | ⟨p, hp, hparent⟩⟩ :=
      Declarator.kind_of_between (hc.of_mem_children hdchild) hs hpeel hname hinside
    · exact Node.owns_eq_false (List.mem_cons_of_mem _ hdeclaring)
        (parent?_of_mem_children hdchild) hdeclaration
    · exact Node.owns_eq_false (List.mem_cons_of_mem _ hdeclaring) hp
        (List.mem_cons_of_mem _ (List.mem_cons_of_mem _ hparent))

/-- **A declaration behind a label** declares its names for a scope around it. -/
theorem IsLabelled.exposes {d : Declarator} (ht : t.isLaidOut = true) (hlabel : c.IsLabelled t)
    (hkind : c.kind = .declaration) (hd : d ∈ Declarator.declarators source c)
    (he : e ∈ Scoping.declared source (.root t)) (hname : e.name = d.name) : c.Exposes e := by
  obtain ⟨hnamed, -, -, hscope⟩ := Scoping.declared_spec ht he
  have hwithin : e.name.isWithin c = true :=
    hname ▸ isWithin_of_mem_ancestors (Declarator.mem_ancestors_name hd)
  refine ⟨hwithin, Bool.eq_false_iff.mpr fun hinside => ?_⟩
  have hnot := hlabel.owns_eq_false (n := e.name) hkind hd (hnamed.of_scope? hscope)
    (hname ▸ isWithin_scope? hscope) hinside
  exact Bool.eq_false_iff.mp hnot (owns_of_scope? hscope)

end Node

namespace Pipeline

/-- **A run of the braces pass** succeeds and puts a pair around each controlled statement that is no
block. -/
theorem exists_pairs_of_perform (validateOutput dryRun : Bool) {files : List SourceFile}
    (hfiles : ∀ file ∈ files, file.SpansFit) :
    ∃ summary, ((build (RunSettings.selectedPasses { passes := [.braces] }) validateOutput
        dryRun).perform files).1 = .ok summary ∧
      ∀ (place : Nat) (u : SourceUnit), (files.map (·.unit?))[place]? = some (some u) →
        ∃ (file : FileSummary) (cs : List Node), summary.files[place]? = some file ∧
          cs.Pairwise (fun c d => c.sameAs d = false) ∧
          (∀ c, c ∈ cs ↔ Unblocked u.root.tree Controls c) ∧
          u.ComesOut (cs.flatMap Braces.edits) file := by
  obtain ⟨summary, log, slots, hrun, hsteps, hlog, hcalls, hout⟩ :=
    exists_outputs { passes := [.braces] } validateOutput dryRun files hfiles
  refine ⟨summary, hrun, fun place u hunit => ?_⟩
  have hpasses : (build (RunSettings.selectedPasses { passes := [.braces] }) validateOutput
    dryRun).passes = [Braces.pass] := rfl
  have hschedule : schedule [Braces.pass] (files.map (·.unit?)) =
      callsFrom Braces.pass .traversal 0 (files.map (·.unit?)) ++
        callsFrom Braces.pass .late 0 (files.map (·.unit?)) := List.flatMap_singleton ..
  rw [hpasses, hschedule] at hlog
  have hran : Ran (files.map (·.unit?)) log _ := ⟨hlog, hcalls, _, _, hsteps, units_start files⟩
  obtain ⟨wraps, late, rfl, hwraps, hlate⟩ := hran.exists_of_append
  obtain ⟨t, hu⟩ := isRooted_units files u (List.mem_of_getElem? hunit)
  obtain ⟨vs, hvs⟩ := Braces.exists_visits hu .traversal
  obtain ⟨file, hfile, hcomes⟩ := hout place u hunit
  rw [editsFor_append, Braces.editsFor_eq_nil_of_late hlate hunit hu, List.append_nil,
    Braces.editsFor_eq_of_ran hwraps hunit hvs] at hcomes
  obtain ⟨hdifferent, hmem⟩ := Braces.statements_spec hu hvs
  rw [hu]
  exact ⟨file, Braces.statements vs, hfile, hdifferent, hmem, hcomes⟩

/-- **The braces that separate uses from declarations.**  Whatever the files, as long as the
parser's spans fit the texts, a run of the braces pass alone succeeds.  Each file whose tree is laid
out comes out with a pair of braces around each controlled statement that is no block, and nothing
else.  Take a use and the declaration that it is bound to: such a pair stands around the declaration
and not around the use exactly if its statement stands behind a label and declares the name for a
scope around it, and the use comes behind the statement.  Every declaration behind a label declares
its names so. -/
theorem exists_separations_of_perform (validateOutput dryRun : Bool) (files : List SourceFile)
    (hfiles : ∀ file ∈ files, file.SpansFit) :
    ∃ summary, ((build (RunSettings.selectedPasses { passes := [.braces] }) validateOutput
        dryRun).perform files).1 = .ok summary ∧
      ∀ (place : Nat) (u : SourceUnit), (files.map (·.unit?))[place]? = some (some u) →
        u.root.tree.isLaidOut = true →
        ∃ (file : FileSummary) (cs : List Node), summary.files[place]? = some file ∧
          cs.Pairwise (fun c d => c.sameAs d = false) ∧
          (∀ c, c ∈ cs ↔ Unblocked u.root.tree Controls c) ∧
          u.ComesOut (cs.flatMap Braces.edits) file ∧
          ∀ c ∈ cs, ∀ n : Node, n.PlaceOf u.root.tree → ∀ e, Binds u.source u.root n e →
            (c.Encloses e.name ∧ ¬ c.Encloses n ↔
              c.IsLabelled u.root.tree ∧ c.Exposes e ∧ c.stop ≤ n.start) ∧
            (c.IsLabelled u.root.tree → c.kind = .declaration →
              (∃ d ∈ Declarator.declarators u.source c, e.name = d.name) → c.Exposes e) := by
  obtain ⟨summary, hrun, hout⟩ := exists_pairs_of_perform validateOutput dryRun hfiles
  refine ⟨summary, hrun, fun place u hunit ht => ?_⟩
  obtain ⟨file, cs, hfile, hdifferent, hmem, hcomes⟩ := hout place u hunit
  refine ⟨file, cs, hfile, hdifferent, hmem, hcomes, fun c hc n hn e he => ?_⟩
  obtain ⟨t, hu⟩ := isRooted_units files u (List.mem_of_getElem? hunit)
  have hroot : u.root = .root u.root.tree := by rw [hu]; rfl
  rw [hroot] at he
  refine ⟨he.separated_iff ht hn ((hmem c).mp hc), ?_⟩
  rintro hlabel hkind ⟨d, hd, hname⟩
  exact hlabel.exposes ht hkind hd he.mem hname

/-! ## A declaration first in a case group -/

/-- A `switch` with a declaration first in a case group. -/
def switchText : String :=
  "void f(int x) \x7b switch (x) \x7b case 1: int a = 2; x = a; \x7d \x7d\n"

/-- The tree of the `switch` in its function. -/
def switchTree : Tree :=
  .node .sourceUnit none ⟨0, 59⟩ false
    [.node .functionDefinition none ⟨0, 58⟩ false
       [.node (.other "primitive_type") (some .type) ⟨0, 4⟩ false [],
        .node .functionDeclarator (some .declarator) ⟨5, 13⟩ false
          [.node .identifier (some .declarator) ⟨5, 6⟩ false [],
           .node (.other "parameter_list") (some .parameters) ⟨6, 13⟩ false
             [.node (.token "(") none ⟨6, 7⟩ false [],
              .node .parameterDeclaration none ⟨7, 12⟩ false
                [.node (.other "primitive_type") (some .type) ⟨7, 10⟩ false [],
                 .node .identifier (some .declarator) ⟨11, 12⟩ false []],
              .node (.token ")") none ⟨12, 13⟩ false []]],
        .node .compoundStatement (some .body) ⟨14, 58⟩ false
          [.node (.token "\x7b") none ⟨14, 15⟩ false [],
           .node .switchStatement none ⟨16, 56⟩ false
             [.node (.token "switch") none ⟨16, 22⟩ false [],
              .node .parenthesizedExpression (some .condition) ⟨23, 26⟩ false
                [.node (.token "(") none ⟨23, 24⟩ false [],
                 .node .identifier none ⟨24, 25⟩ false [],
                 .node (.token ")") none ⟨25, 26⟩ false []],
              .node .compoundStatement (some .body) ⟨27, 56⟩ false
                [.node (.token "\x7b") none ⟨27, 28⟩ false [],
                 .node .caseStatement none ⟨29, 54⟩ false
                   [.node (.token "case") none ⟨29, 33⟩ false [],
                    .node .numberLiteral (some .value) ⟨34, 35⟩ false [],
                    .node (.token ":") none ⟨35, 36⟩ false [],
                    .node .declaration none ⟨37, 47⟩ false
                      [.node (.other "primitive_type") (some .type) ⟨37, 40⟩ false [],
                       .node .initDeclarator (some .declarator) ⟨41, 46⟩ false
                         [.node .identifier (some .declarator) ⟨41, 42⟩ false [],
                          .node (.token "=") none ⟨43, 44⟩ false [],
                          .node .numberLiteral (some .value) ⟨45, 46⟩ false []],
                       .node (.token ";") none ⟨46, 47⟩ false []],
                    .node .expressionStatement none ⟨48, 54⟩ false
                      [.node .assignmentExpression none ⟨48, 53⟩ false
                         [.node .identifier (some .left) ⟨48, 49⟩ false [],
                          .node (.token "=") (some .operator) ⟨50, 51⟩ false [],
                          .node .identifier (some .right) ⟨52, 53⟩ false []],
                       .node (.token ";") none ⟨53, 54⟩ false []]],
                 .node (.token "\x7d") none ⟨55, 56⟩ false []]],
           .node (.token "\x7d") none ⟨57, 58⟩ false []]]]

/-- The function as a file. -/
def switchFile : SourceFile := ⟨"t.c", .ok switchText, fun _ => switchTree⟩

/-- The function as a unit. -/
def switchUnit : SourceUnit :=
  ⟨"t.c", switchText, .root switchTree, NameTable.build switchText (.root switchTree)⟩

theorem spansFit_switch : ∀ file ∈ [switchFile], file.SpansFit :=
  SourceFile.spansFit_singleton (by decide)

/-- A use behind the declaration is bound to it. -/
theorem exists_binds_switch : ∃ c n e, Unblocked switchTree Controls c ∧ c.kind = .declaration ∧
    n.PlaceOf switchTree ∧ Binds switchText (.root switchTree) n e ∧
    c.Encloses e.name ∧ ¬ c.Encloses n := by
  have hfound : ∃ c ∈ Node.unblocked switchTree, c.kind = .declaration ∧
      ∃ n ∈ (Node.root switchTree).walk, n.kind = .identifier ∧ n.tree.children = [] ∧
        n.text switchText ≠ "" ∧
        (∀ p ∈ n.parent?, p.kind ∉ [Kind.structSpecifier, .unionSpecifier, .enumSpecifier]) ∧
        (∀ e ∈ Scoping.declared switchText (.root switchTree), e.name.sameAs n = false) ∧
        ∃ e ∈ Scoping.declared switchText (.root switchTree), e.IsVisible switchText n ∧
          (∀ f ∈ Scoping.declared switchText (.root switchTree),
            f.IsVisible switchText n → e.Hides f) ∧
          (c.start ≤ e.name.start ∧ e.name.stop ≤ c.stop) ∧
          ¬ (c.start ≤ n.start ∧ n.stop ≤ c.stop) := by
    decide +kernel
  obtain ⟨c, hc, hkind, n, hn, huse, hleaf, hspelled, huntagged, hundeclared, e, he, hvisible,
    hhides, hin, hout⟩ := hfound
  refine ⟨c, n, e, Node.mem_unblocked_iff.mp hc, hkind, (Node.placeOf_root _).of_mem_walk hn, ?_,
    hin, hout⟩
  exact ⟨⟨.inl huse, hleaf, hspelled, huntagged, hundeclared⟩, he, hvisible, hhides⟩

/-- **New braces end the scope of a declaration** whose name is used behind them. -/
theorem separated_switch : switchTree.isLaidOut = true ∧ switchTree.faults = [] ∧
    (∃ c n e, Unblocked switchTree Controls c ∧ c.kind = .declaration ∧ n.PlaceOf switchTree ∧
      Binds switchText (.root switchTree) n e ∧ c.Encloses e.name ∧ ¬ c.Encloses n) ∧
    (((build [Braces.pass] false true).perform [switchFile]).1.toOption.map
      fun s => s.files.map (·.output)) = some
        ["void f(int x) \x7b switch (x) \x7b case 1: \x7b\nint a = 2;\n\x7d x = a; \x7d \x7d\n"] :=
  ⟨by decide, by decide, exists_binds_switch, by decide +kernel⟩

/-- The `switch`, with the braces that a run puts around the declaration. -/
theorem exists_separations_of_switch : (∀ file ∈ [switchFile], file.SpansFit) ∧
    switchTree.isLaidOut = true ∧
    ∃ summary, ((build (RunSettings.selectedPasses { passes := [.braces] }) false
        true).perform [switchFile]).1 = .ok summary ∧
      ∃ (file : FileSummary) (cs : List Node), summary.files[0]? = some file ∧
        (∀ c, c ∈ cs ↔ Unblocked switchTree Controls c) ∧
        switchUnit.ComesOut (cs.flatMap Braces.edits) file ∧
        ∃ c ∈ cs, ∃ n e, Binds switchText (.root switchTree) n e ∧
          c.IsLabelled switchTree ∧ c.Exposes e ∧ c.stop ≤ n.start := by
  obtain ⟨summary, hrun, hout⟩ :=
    exists_separations_of_perform false true [switchFile] spansFit_switch
  obtain ⟨file, cs, hfile, -, hmem, hcomes, hbraces⟩ := hout 0 switchUnit rfl (by decide)
  obtain ⟨c, n, e, hc, -, hn, hbinds, hin, hapart⟩ := exists_binds_switch
  have hc' := (hmem c).mpr hc
  exact ⟨spansFit_switch, by decide, summary, hrun, file, cs, hfile, hmem, hcomes, c, hc', n, e,
    hbinds, (hbraces c hc' n hn e hbinds).1.mp ⟨hin, hapart⟩⟩

end Pipeline

end ProbeWeaver
