import ProbeWeaver.Proofs.Run.HookWraps

/-!
# Proofs/Run/Wrapped — what stands between the ends of a hook

Between the opener and the closer of a hook stands its expression, with the hooks around parts of it.

* `Pipeline.exists_nesting_of_mutate` — the mutate pass alone: the file is its own text with nesting
  hooks, below the lines that define them.
* `Pipeline.exists_wrapped_of_perform` — the mutate pass among others, in any order: what others
  insert stays outside, unless an earlier pass inserts where the expression ends or a later one
  where it starts.

At one offset insertions stand in their order of arrival, so both need that nothing which comes later
goes to the start of a hooked expression (`perform_branch`, `perform_choice`).
-/

namespace ProbeWeaver

open Text Hooks

variable {t : Tree} {u : SourceUnit} {n : Node} {targets : List HookTarget} {h : Hook}

/-! ## Where hooks may be -/

namespace Hooks

/-- **The operands of a tree**: all parts of constructs that targets are about. -/
def operands (t : Tree) : List Node :=
  (Node.root t).walk.flatMap fun main =>
    HookTarget.all.flatMap fun target =>
      if main.kind ∈ target.kinds then
        main.children.filter fun n => target.parts.any fun part => n.tree.field == some part.field
      else []

theorem Part.Fills.mem_operands {part : Part} {target : HookTarget} {main : Node}
    (hfills : part.Fills target main n) (hpart : part ∈ target.parts) (hmain : main.PlaceOf t) :
    n ∈ operands t := by
  have htarget : target ∈ HookTarget.all := by cases target <;> decide
  refine List.mem_flatMap.mpr ⟨main, hmain.mem_walk, List.mem_flatMap.mpr ⟨target, htarget, ?_⟩⟩
  rw [if_pos hfills.kind]
  refine List.mem_filter.mpr ⟨hfills.mem, List.any_eq_true.mpr ⟨part, hpart, ?_⟩⟩
  exact beq_iff_eq.mpr hfills.field

/-- **What gets a hook** is a part of its parent, which is a construct of the target. -/
theorem Hooked.exists_fills (hhooked : Hooked targets u h n) (hu : u.root = .root t) :
    ∃ target : HookTarget, ∃ part ∈ target.parts, ∃ main : Node,
      part.Fills target main n ∧ main.PlaceOf t := by
  obtain ⟨vs, hvs, v, hv, target, part, hr, hpart, -, hn⟩ := hhooked
  obtain ⟨hfills, hmain⟩ := fills_of_mem hu hvs hv hr hpart hn
  exact ⟨target, part, hpart, v.found.root, hfills, hmain⟩

theorem Hooked.mem_operands (hhooked : Hooked targets u h n) (hu : u.root = .root t) :
    n ∈ operands t := by
  obtain ⟨target, part, hpart, main, hfills, hmain⟩ := hhooked.exists_fills hu
  exact hfills.mem_operands hpart hmain

theorem Hooked.isHookable (hhooked : Hooked targets u h n) (hu : u.root = .root t) :
    IsHookable n := by
  obtain ⟨target, part, -, main, hfills, -⟩ := hhooked.exists_fills hu
  exact ⟨main, Node.parent?_of_mem_children hfills.mem, target, hfills.kind⟩

/-- **Operands that stand clear of each other**, checked on the tree. -/
theorem standClear_of_operands (hu : u.root = .root t) (ht : t.isLaidOut = true)
    (hapart : ∀ n ∈ operands t, ∀ n' ∈ operands t, n.stop = n'.start → n'.isWithin n = true)
    (hnarrower : ∀ n ∈ operands t, ∀ p ∈ n.parent?, n.span ≠ p.span) : StandClear targets u where
  laidOut := by rw [hu]; exact ht
  apart _ _ _ _ hn hn' := hapart _ (hn.mem_operands hu) _ (hn'.mem_operands hu)
  narrower _ _ _ hn hp := hnarrower _ (hn.mem_operands hu) _ hp

end Hooks

/-! ## Where passes insert -/

/-- The offsets where a pass has a place to insert. -/
def Pass.anchors (p : Pass) (u : SourceUnit) : List Nat :=
  p.rules.flatMap fun r =>
    ((r.matchesIn u).toOption.getD []).flatMap fun m =>
      r.edits.filterMap fun e => (Rule.anchorRange m e.anchor).toOption.map Prod.fst

theorem Pass.AnchorsAt.mem_anchors {p : Pass} {offset : Nat} (hp : p.AnchorsAt u offset) :
    offset ∈ p.anchors u := by
  obtain ⟨phase, vs, v, e, length, hvs, hv, he, hrange⟩ := hp
  obtain ⟨hrule, ms, hms, hfound⟩ := Pass.mem_visits hvs hv
  refine List.mem_flatMap.mpr ⟨v.rule, hrule, List.mem_flatMap.mpr ⟨v.found, ?_, ?_⟩⟩
  · rw [hms]
    exact hfound
  · refine List.mem_filterMap.mpr ⟨e, he, ?_⟩
    rw [hrange]
    rfl

/-- **Strictly inside a hooked expression without statements** other passes have no place to
insert. -/
theorem Pass.AnchorsAt.outside {p : Pass} {offset : Nat} (hp : p.AnchorsAt u offset)
    (hother : p.IsOther .mutate) (hu : u.root = .root t) (ht : t.isLaidOut = true)
    (hn : n.PlaceOf t) (hhookable : IsHookable n)
    (hbare : ∀ s : Node, s.PlaceOf t → s.isWithin n = true → s.isStatement = false) :
    offset ≤ n.start ∨ n.stop ≤ offset := by
  obtain ⟨phase, vs, v, e, length, hvs, hv, he, hrange⟩ := hp
  obtain ⟨config, kind, hkind, rfl⟩ := hother
  obtain ⟨hrule, ms, hms, hfound⟩ := Pass.mem_visits hvs hv
  have hlisted := Pass.listed_of_mem hrule
  exact (hlisted.keepsToStatements fun target => not_mem_targetSet hkind hrule target).outside
    hlisted.insertive hu ht (Rule.offers_of_mem_matchesIn hms hfound).1 he hrange hn hhookable hbare

/-! ## Runs -/

namespace Pipeline

/-- **The mutate pass alone.**  Whatever the targets, as long as the parser's spans fit the texts: the
run succeeds, and each file whose hooked expressions stand clear of each other, none of them at the
very start, comes out as definitions on top of its own text, in which each hooked expression stands
between the ends of its hook, with the hooks around parts of it. -/
theorem exists_nesting_of_mutate (targets : List HookTarget) (validateOutput dryRun : Bool)
    (files : List SourceFile) (hfiles : ∀ file ∈ files, file.SpansFit) :
    ∃ summary, ((build (RunSettings.selectedPasses { passes := [.mutate], targets }) validateOutput
        dryRun).perform files).1 = .ok summary ∧
      ∀ (place : Nat) (u : SourceUnit), (files.map (·.unit?))[place]? = some (some u) →
        StandClear targets u → (∀ h n, Hooked targets u h n → n.start ≠ 0) →
        ∃ (file : FileSummary) (ws : List Wrap) (defined : List (Hook × Nat)),
          summary.files[place]? = some file ∧ Hooking targets u ws ∧
            file.output = definitionLines defined ++ (slice u.source 0 u.root.start ++
              (wrapTree u.source ws u.root u.root.tree ++
                slice u.source u.root.stop u.source.utf8ByteSize)) := by
  obtain ⟨front, back, hpasses, -, summary, hrun, hout⟩ := exists_accounts
    { passes := [.mutate], targets } rfl validateOutput dryRun files hfiles
  obtain ⟨rfl, rfl⟩ : front = [] ∧ back = [] := by
    have hlength := congrArg List.length hpasses
    rw [List.length_append, List.length_cons] at hlength
    have hone : (build (RunSettings.selectedPasses { passes := [.mutate], targets }) validateOutput
      dryRun).passes.length = 1 := rfl
    exact ⟨List.eq_nil_of_length_eq_zero (by omega), List.eq_nil_of_length_eq_zero (by omega)⟩
  refine ⟨summary, hrun, fun place u hunit hclear hstarts => ?_⟩
  obtain ⟨file, ws, pre, lines, post, hfile, hcomes, haccount⟩ := hout place u hunit hclear
  obtain ⟨defined, hdefined⟩ := haccount.lines
  have hnone : pre = [] ∧ post = [] :=
    ⟨List.eq_nil_iff_forall_not_mem.mpr fun e he => by
        obtain ⟨p, hp, -⟩ := haccount.pre e he
        exact absurd hp List.not_mem_nil,
      List.eq_nil_iff_forall_not_mem.mpr fun e he => by
        obtain ⟨p, hp, -⟩ := haccount.post e he
        exact absurd hp List.not_mem_nil⟩
  obtain ⟨rfl, rfl⟩ := hnone
  obtain ⟨t, hu⟩ := isRooted_units files u (List.mem_of_getElem? hunit)
  refine ⟨file, ws, defined, hfile, haccount.hooking, ?_⟩
  have hweave := haccount.nested.weave_eq hclear.laidOut
    (fun n hn => isBoundary_units hfiles (List.mem_of_getElem? hunit) hn)
    (fun w hw => hstarts w.hook w.place ((haccount.hooking.hooked _ _).mp ⟨w, hw, rfl, rfl⟩))
    haccount.start
  rw [hcomes.output, List.nil_append, List.append_nil, hweave, hdefined, hu]
  rfl

/-- A statement that adds to a product. -/
def productText : String := "void f(int a, int b) \x7b a * b + 1; \x7d\n"

/-- The tree of the statement in its function. -/
def productTree : Tree :=
  .node .sourceUnit none ⟨0, 36⟩ false
    [.node .functionDefinition none ⟨0, 35⟩ false
       [.node (.other "primitive_type") (some .type) ⟨0, 4⟩ false [],
        .node .functionDeclarator (some .declarator) ⟨5, 20⟩ false
          [.node .identifier (some .declarator) ⟨5, 6⟩ false [],
           .node (.other "parameter_list") (some .parameters) ⟨6, 20⟩ false
             [.node (.token "(") none ⟨6, 7⟩ false [],
              .node .parameterDeclaration none ⟨7, 12⟩ false
                [.node (.other "primitive_type") (some .type) ⟨7, 10⟩ false [],
                 .node .identifier (some .declarator) ⟨11, 12⟩ false []],
              .node (.token ",") none ⟨12, 13⟩ false [],
              .node .parameterDeclaration none ⟨14, 19⟩ false
                [.node (.other "primitive_type") (some .type) ⟨14, 17⟩ false [],
                 .node .identifier (some .declarator) ⟨18, 19⟩ false []],
              .node (.token ")") none ⟨19, 20⟩ false []]],
        .node .compoundStatement (some .body) ⟨21, 35⟩ false
          [.node (.token "\x7b") none ⟨21, 22⟩ false [],
           .node .expressionStatement none ⟨23, 33⟩ false
             [.node .binaryExpression none ⟨23, 32⟩ false
                [.node .binaryExpression (some .left) ⟨23, 28⟩ false
                   [.node .identifier (some .left) ⟨23, 24⟩ false [],
                    .node (.token "*") (some .operator) ⟨25, 26⟩ false [],
                    .node .identifier (some .right) ⟨27, 28⟩ false []],
                 .node (.token "+") (some .operator) ⟨29, 30⟩ false [],
                 .node .numberLiteral (some .right) ⟨31, 32⟩ false []],
              .node (.token ";") none ⟨32, 33⟩ false []],
           .node (.token "\x7d") none ⟨34, 35⟩ false []]]]

/-- The function as a file. -/
def productFile : SourceFile := ⟨"t.c", .ok productText, fun _ => productTree⟩

/-- The function as a unit. -/
def productUnit : SourceUnit :=
  ⟨"t.c", productText, .root productTree, NameTable.build productText (.root productTree)⟩

theorem spansFit_product : ∀ file ∈ [productFile], file.SpansFit :=
  SourceFile.spansFit_singleton (by decide)

theorem standClear_product : StandClear targets productUnit :=
  standClear_of_operands (t := productTree) rfl (by decide) (by decide) (by decide)

/-- The product, with every integer hooked. -/
theorem exists_nesting_of_product :
    ∃ summary, ((build (RunSettings.selectedPasses { passes := [.mutate], targets := [.integer] })
        false true).perform [productFile]).1 = .ok summary ∧
      ∃ (file : FileSummary) (ws : List Wrap) (defined : List (Hook × Nat)),
        summary.files[0]? = some file ∧ Hooking [.integer] productUnit ws ∧
          file.output = definitionLines defined ++ (slice productText 0 0 ++
            (wrapTree productText ws (.root productTree) productTree ++ slice productText 36 36)) := by
  obtain ⟨summary, hrun, hout⟩ := exists_nesting_of_mutate [.integer] false true [productFile]
    spansFit_product
  have hstarts : ∀ n ∈ operands productTree, n.start ≠ 0 := by decide
  exact ⟨summary, hrun, hout 0 productUnit rfl standClear_product
    fun h n hhooked => hstarts n (hhooked.mem_operands rfl)⟩

/-- A choice by a sum, right at the start of its file. -/
def choiceText : String := "1 + 2 ? 3 : 4;\n"

/-- The tree of the choice. -/
def choiceTree : Tree :=
  .node .sourceUnit none ⟨0, 15⟩ false
    [.node .expressionStatement none ⟨0, 14⟩ false
      [.node .conditionalExpression none ⟨0, 13⟩ false
        [.node .binaryExpression (some .condition) ⟨0, 5⟩ false
          [.node .numberLiteral (some .left) ⟨0, 1⟩ false [],
            .node (.token "+") (some .operator) ⟨2, 3⟩ false [],
            .node .numberLiteral (some .right) ⟨4, 5⟩ false []],
          .node (.token "?") none ⟨6, 7⟩ false [],
          .node .numberLiteral (some .consequence) ⟨8, 9⟩ false [],
          .node (.token ":") none ⟨10, 11⟩ false [],
          .node .numberLiteral (some .alternative) ⟨12, 13⟩ false []],
        .node (.token ";") none ⟨13, 14⟩ false []]]

/-- The choice as a file. -/
def choiceFile : SourceFile := ⟨"t.c", .ok choiceText, fun _ => choiceTree⟩

set_option maxRecDepth 10000 in
/-- **Definitions between the ends of a hook**: they come after the hooks, so an expression at the very
start of the file has them on its inside. -/
theorem perform_choice :
    (∀ file ∈ [choiceFile], file.SpansFit) ∧
      (∃ u, choiceFile.unit? = some u ∧ StandClear [.integer] u) ∧
        ((build (RunSettings.selectedPasses { passes := [.mutate], targets := [.integer] }) false
            true).perform [choiceFile]).1.toOption.map (fun summary => summary.files.map (·.output)) =
          some ["((#define _INTOPL0 \n#define _INTOPR0 \n1) _INTOPL0) + ((2) _INTOPR0) ? 3 : 4;\n"] := by
  refine ⟨fun file hfile text htext => ?_, ⟨_, rfl, standClear_of_operands (t := choiceTree) rfl
    (by decide) (by decide) (by decide)⟩, by decide +kernel⟩
  obtain rfl := List.mem_singleton.mp hfile
  obtain rfl := Except.ok.inj htext
  decide

/-! ## Among other passes -/

/-- **The mutate pass among others.**  Whatever the configuration, as long as it lists the mutate pass
once, and whatever the files, as long as the parser's spans fit the texts: the run succeeds, and in
each file whose hooked expressions stand clear of each other, each of them stands between the ends of
its hook, with the hooks around parts of it and nothing else, unless it starts the file, holds a
statement, ends where a pass before the mutate pass inserts or starts where one after it does. -/
theorem exists_wrapped_of_perform (config : RunSettings) (honce : config.passes.count .mutate = 1)
    (validateOutput dryRun : Bool) (files : List SourceFile)
    (hfiles : ∀ file ∈ files, file.SpansFit) :
    ∃ front back, (build config.selectedPasses validateOutput dryRun).passes =
        front ++ Hooks.pass config.targets :: back ∧
      ∃ summary, ((build config.selectedPasses validateOutput dryRun).perform files).1 =
          .ok summary ∧
        ∀ (place : Nat) (u : SourceUnit), (files.map (·.unit?))[place]? = some (some u) →
          StandClear config.targets u → ∃ (file : FileSummary) (ws : List Wrap),
            summary.files[place]? = some file ∧ Hooking config.targets u ws ∧
              ∀ w ∈ ws, w.place.start ≠ 0 →
                (∀ s ∈ u.root.walk, s.isWithin w.place = true → s.isStatement = false) →
                  (∀ p ∈ front, ¬ p.AnchorsAt u w.place.stop) →
                    (∀ p ∈ back, ¬ p.AnchorsAt u w.place.start) →
                      ∃ before after, file.output = before ++ (opener ++
                        (wrapTrees u.source ws w.place 0 w.place.start w.place.stop
                          w.place.tree.children ++ (w.closing ++ after))) := by
  obtain ⟨front, back, hpasses, hothers, summary, hrun, hout⟩ :=
    exists_accounts config honce validateOutput dryRun files hfiles
  refine ⟨front, back, hpasses, summary, hrun, fun place u hunit hclear => ?_⟩
  obtain ⟨file, ws, pre, lines, post, hfile, hcomes, haccount⟩ := hout place u hunit hclear
  obtain ⟨t, hu⟩ := isRooted_units files u (List.mem_of_getElem? hunit)
  refine ⟨file, ws, hfile, haccount.hooking, fun w hw hstart hbare hfront hback => ?_⟩
  have htree : u.root.tree = t := by rw [hu]; rfl
  have ht : t.isLaidOut = true := htree ▸ hclear.laidOut
  have hplace : w.place.PlaceOf t := htree ▸ haccount.nested.places w hw
  have hhookable : IsHookable w.place :=
    ((haccount.hooking.hooked _ _).mp ⟨w, hw, rfl, rfl⟩).isHookable hu
  have houtside {p : Pass} {offset : Nat} (hp : p ∈ front ++ back) (hat : p.AnchorsAt u offset) :
      offset ≤ w.place.start ∨ w.place.stop ≤ offset :=
    hat.outside (hothers p hp) hu ht hplace hhookable fun s hs => by
      rw [hu] at hbare
      exact hbare s hs.mem_walk
  have hpre : ∀ e ∈ pre, e.offset ≤ w.place.start ∨ w.place.stop < e.offset := by
    intro e he
    obtain ⟨p, hp, hat⟩ := haccount.pre e he
    have hne : e.offset ≠ w.place.stop := fun heq => hfront p hp (heq ▸ hat)
    exact (houtside (List.mem_append_left _ hp) hat).imp_right fun hle =>
      Nat.lt_of_le_of_ne hle hne.symm
  have hpost : ∀ e ∈ lines ++ post, e.offset < w.place.start ∨ w.place.stop ≤ e.offset := by
    intro e he
    rcases List.mem_append.mp he with he | he
    · rw [haccount.start e he]
      exact .inl (Nat.pos_of_ne_zero hstart)
    · obtain ⟨p, hp, hat⟩ := haccount.post e he
      have hne : e.offset ≠ w.place.start := fun heq => hback p hp (heq ▸ hat)
      exact (houtside (List.mem_append_right _ hp) hat).imp_left fun hle =>
        Nat.lt_of_le_of_ne hle hne
  obtain ⟨before, after, hweave⟩ := haccount.nested.exists_weave_eq hclear.laidOut
    (fun n hn => isBoundary_units hfiles (List.mem_of_getElem? hunit) hn) hw hpre hpost
  refine ⟨before, after, ?_⟩
  rw [hcomes.output, hweave, haccount.nested.wrapTree_place hw, String.append_assoc,
    String.append_assoc]

/-- A sum as the body of a condition. -/
def branchText : String := "void f(int a, int b) \x7b if (a) a + b; \x7d\n"

/-- The tree of the sum in its function. -/
def branchTree : Tree :=
  .node .sourceUnit none ⟨0, 39⟩ false
    [.node .functionDefinition none ⟨0, 38⟩ false
       [.node (.other "primitive_type") (some .type) ⟨0, 4⟩ false [],
        .node .functionDeclarator (some .declarator) ⟨5, 20⟩ false
          [.node .identifier (some .declarator) ⟨5, 6⟩ false [],
           .node (.other "parameter_list") (some .parameters) ⟨6, 20⟩ false
             [.node (.token "(") none ⟨6, 7⟩ false [],
              .node .parameterDeclaration none ⟨7, 12⟩ false
                [.node (.other "primitive_type") (some .type) ⟨7, 10⟩ false [],
                 .node .identifier (some .declarator) ⟨11, 12⟩ false []],
              .node (.token ",") none ⟨12, 13⟩ false [],
              .node .parameterDeclaration none ⟨14, 19⟩ false
                [.node (.other "primitive_type") (some .type) ⟨14, 17⟩ false [],
                 .node .identifier (some .declarator) ⟨18, 19⟩ false []],
              .node (.token ")") none ⟨19, 20⟩ false []]],
        .node .compoundStatement (some .body) ⟨21, 38⟩ false
          [.node (.token "\x7b") none ⟨21, 22⟩ false [],
           .node .ifStatement none ⟨23, 36⟩ false
             [.node (.token "if") none ⟨23, 25⟩ false [],
              .node .parenthesizedExpression (some .condition) ⟨26, 29⟩ false
                [.node (.token "(") none ⟨26, 27⟩ false [],
                 .node .identifier none ⟨27, 28⟩ false [],
                 .node (.token ")") none ⟨28, 29⟩ false []],
              .node .expressionStatement (some .consequence) ⟨30, 36⟩ false
                [.node .binaryExpression none ⟨30, 35⟩ false
                   [.node .identifier (some .left) ⟨30, 31⟩ false [],
                    .node (.token "+") (some .operator) ⟨32, 33⟩ false [],
                    .node .identifier (some .right) ⟨34, 35⟩ false []],
                 .node (.token ";") none ⟨35, 36⟩ false []]],
           .node (.token "\x7d") none ⟨37, 38⟩ false []]]]

/-- The function as a file. -/
def branchFile : SourceFile := ⟨"t.c", .ok branchText, fun _ => branchTree⟩

/-- The function as a unit. -/
def branchUnit : SourceUnit :=
  ⟨"t.c", branchText, .root branchTree, NameTable.build branchText (.root branchTree)⟩

theorem spansFit_branch : ∀ file ∈ [branchFile], file.SpansFit :=
  SourceFile.spansFit_singleton (by decide)

theorem standClear_branch : StandClear targets branchUnit :=
  standClear_of_operands (t := branchTree) rfl (by decide) (by decide) (by decide)

theorem isStatement_branch : ∀ n ∈ operands branchTree, ∀ s ∈ (Node.root branchTree).walk,
    s.isWithin n = true → s.isStatement = false := by
  decide

/-- The branch sum, with every integer hooked after its body became a block. -/
theorem exists_wrapped_of_branch :
    ∃ summary, ((build (RunSettings.selectedPasses
        { passes := [.braces, .mutate], targets := [.integer] }) false true).perform
          [branchFile]).1 = .ok summary ∧
      ∃ (file : FileSummary) (ws : List Wrap), summary.files[0]? = some file ∧
        Hooking [.integer] branchUnit ws ∧ ∀ w ∈ ws, ∃ before after,
          file.output = before ++ (opener ++ (wrapTrees branchText ws w.place 0 w.place.start
            w.place.stop w.place.tree.children ++ (w.closing ++ after))) := by
  obtain ⟨front, back, hpasses, summary, hrun, hout⟩ := exists_wrapped_of_perform
    { passes := [.braces, .mutate], targets := [.integer] } rfl false true [branchFile]
    spansFit_branch
  obtain ⟨file, ws, hfile, hhooking, hwrapped⟩ := hout 0 branchUnit rfl standClear_branch
  refine ⟨summary, hrun, file, ws, hfile, hhooking, fun w hw => ?_⟩
  have hoperand : w.place ∈ operands branchTree :=
    ((hhooking.hooked _ _).mp ⟨w, hw, rfl, rfl⟩).mem_operands rfl
  obtain ⟨rfl, rfl⟩ : front = [Braces.pass] ∧ back = [] := by
    have htwo : [Braces.pass, Hooks.pass [.integer]] = front ++ Hooks.pass [.integer] :: back :=
      hpasses
    cases front with
    | nil => exact nomatch congrArg Pass.name (List.cons.inj htwo).1
    | cons p front =>
      obtain ⟨rfl, hone⟩ := List.cons.inj htwo
      cases front with
      | nil => exact ⟨rfl, (List.cons.inj hone).2.symm⟩
      | cons q front => exact absurd (List.cons.inj hone).2 (by simp)
  refine hwrapped w hw ?_ ?_ (fun p hp hat => ?_) fun p hp => absurd hp List.not_mem_nil
  · exact (by decide : ∀ n ∈ operands branchTree, n.start ≠ 0) _ hoperand
  · exact isStatement_branch _ hoperand
  · exact (by decide +kernel : ∀ p ∈ [Braces.pass], ∀ n ∈ operands branchTree,
      n.stop ∉ p.anchors branchUnit) p hp _ hoperand hat.mem_anchors

set_option maxRecDepth 10000 in
/-- **A brace between the ends of a hook**: with the passes the other way round, the brace before the
body comes after the opener of the operand that the body starts with. -/
theorem perform_branch :
    [PassKind.mutate, .braces].Nodup ∧ (∀ file ∈ [branchFile], file.SpansFit) ∧
      branchFile.unit? = some branchUnit ∧ StandClear [.integer] branchUnit ∧
        (∀ h n, Hooked [.integer] branchUnit h n → ∀ s ∈ (Node.root branchTree).walk,
          s.isWithin n = true → s.isStatement = false) ∧
          ((build (RunSettings.selectedPasses
              { passes := [.mutate, .braces], targets := [.integer] }) false true).perform
                [branchFile]).1.toOption.map (fun summary => summary.files.map (·.output)) =
            some ["#define _INTOPL0 \n#define _INTOPR0 \nvoid f(int a, int b) \x7b " ++
              "if (a) ((\x7b\na) _INTOPL0) + ((b) _INTOPR0);\n\x7d \x7d\n"] :=
  ⟨by decide, spansFit_branch, rfl, standClear_branch,
    fun h n hhooked => isStatement_branch n (hhooked.mem_operands rfl), by decide +kernel⟩

end Pipeline

end ProbeWeaver
