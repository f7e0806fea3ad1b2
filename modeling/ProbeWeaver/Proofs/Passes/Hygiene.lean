import ProbeWeaver.Proofs.Passes.Writes
import ProbeWeaver.Proofs.Run.Bodies
import ProbeWeaver.Proofs.Typing.Sight

/-!
# Proofs/Passes/Hygiene — what the variables of a probe mean where it stands

A probe evaluates expressions of the statement that it is put before, so their variables are looked
up from another place than their own.  They mean the same there exactly when no construct between
the two places binds them otherwise, such as the header of a loop that the probe stands before.

* `Pipeline.lookup_eq_iff_of_evaluated` — the exact condition, for every probe of every pass.
* `Pipeline.exists_probe_before_loop` — a probe before a loop that evaluates the loop's variable.
-/

namespace ProbeWeaver

open Node (PlaceOf)

variable {t : Tree} {u : SourceUnit} {m : Match} {r : Rule} {n s i x : Node} {name : String}

/-- **Only the root is a file**, as the grammar has it. -/
def SourceUnit.IsOneFile (u : SourceUnit) : Prop :=
  ∀ n ∈ u.root.walk, n.kind = .sourceUnit → n.path = []

instance (u : SourceUnit) : Decidable u.IsOneFile :=
  inferInstanceAs (Decidable (∀ n ∈ u.root.walk, _))

/-- The place of a file is the root. -/
theorem SourceUnit.IsOneFile.eq_root (h : u.IsOneFile) (hu : u.root = .root t) (hn : n.PlaceOf t)
    (hkind : n.kind = .sourceUnit) : n = .root t ∧ t.kind = .sourceUnit := by
  have hpath := h n (by rw [hu]; exact hn.mem_walk) hkind
  cases n with
  | root v => exact ⟨by rw [show v = t from hn], by rw [← show v = t from hn]; exact hkind⟩
  | child p j v => exact absurd hpath (List.cons_ne_nil j p.path)

namespace SourceUnit

/-- What the name of an identifier means from a place. -/
def meaningFrom (u : SourceUnit) (i place : Node) : Option NameMeaning :=
  u.names.lookup u.source (u.text i) place

/-- What the constructs around one place and not the other bind the name of an identifier to. -/
def meaningApart (u : SourceUnit) (i place other : Node) : Option NameMeaning :=
  NameTable.bindingApart? u.source (u.text i) place other

/-- **No construct in between tells the two places apart**: what the constructs around one of them
alone bind the identifier to, if anything, it means from the other as well. -/
def SeesAlike (u : SourceUnit) (i place other : Node) : Prop :=
  (∀ b, u.meaningApart i place other = some b → u.meaningFrom i other = some b) ∧
    ∀ b, u.meaningApart i other place = some b → u.meaningFrom i place = some b

/-- An identifier inside a construct, and a place around the construct. -/
theorem meaningFrom_eq_iff_of_mem_ancestors (hs : s ∈ x.ancestors) (hi : i ∈ x.identifiers) :
    u.meaningFrom i i = u.meaningFrom i s ↔ u.SeesAlike i i s :=
  NameTable.lookup_eq_iff_of_mem_ancestors (Node.mem_ancestors_of_mem_identifiers hi hs)

end SourceUnit

/-! ## The slot around a construct -/

/-- What is seen around the construct stands around its parts. -/
theorem mem_ancestors_of_slotAround? (hs : n.slotAround? = some s)
    (hx : x = n ∨ x ∈ n.children) : s ∈ x.ancestors := by
  have hslot := List.mem_of_find?_eq_some hs
  rcases hx with rfl | hx
  · exact hslot
  · obtain ⟨j, hj, rfl⟩ := List.mem_mapIdx.mp hx
    exact List.mem_cons_of_mem n hslot

/-! ## The start of `main` -/

/-- The first statement of `main` stands in the body of a function of the file. -/
theorem exists_ancestors_startOfMain (hu : u.root = .root t)
    (hs : Condition.startOfMain m u = some s) :
    ∃ body main, s.ancestors = [body, main, .root t] ∧ s.PlaceOf t ∧ main.parent? = some (.root t) ∧
      body.parent? = some main ∧ main.kind = .functionDefinition := by
  obtain ⟨main, hmain, hs⟩ := Option.bind_eq_some_iff.mp hs
  obtain ⟨body, hbody, hs⟩ := Option.bind_eq_some_iff.mp hs
  have hmember := List.mem_of_find?_eq_some hmain
  have hdefined := List.find?_some hmain
  have hkind := beq_iff_eq.mp (Bool.and_eq_true_iff.mp hdefined).1
  rw [hu] at hmember
  have hmainParent := Node.parent?_of_mem_children (List.mem_filter.mp hmember).1
  have hbodyParent := Node.parent?_of_mem_children (List.mem_of_find?_eq_some hbody)
  have hstatement := List.mem_filter.mp (List.mem_of_find?_eq_some hs)
  have hparent := Node.parent?_of_mem_children hstatement.1
  have hplace : s.PlaceOf t :=
    (((Node.placeOf_root t).of_mem_namedChildren hmember).of_field? hbody).of_mem_children
      hstatement.1
  refine ⟨body, main, ?_, hplace, hmainParent, hbodyParent, hkind⟩
  rw [Node.ancestors_of_parent? hparent, Node.ancestors_of_parent? hbodyParent,
    Node.ancestors_of_parent? hmainParent]
  rfl

/-- **From a declaration right in the file and from the start of `main`** an identifier means the
same exactly when no construct around one of the places binds it otherwise. -/
theorem meaningFrom_eq_iff_of_startOfMain {decl : Node} (hu : u.root = .root t)
    (ht : t.kind = .sourceUnit) (hi : i.PlaceOf t) (hdecl : decl ∈ i.ancestors)
    (hkind : decl.kind = .declaration) (hparent : decl.parent? = some (.root t))
    (hs : Condition.startOfMain m u = some s) :
    u.meaningFrom i i = u.meaningFrom i s ↔ u.SeesAlike i i s := by
  obtain ⟨body, main, hup, hplace, hmainParent, hbodyParent, hmain⟩ :=
    exists_ancestors_startOfMain hu hs
  obtain ⟨inner, hinner⟩ := Node.exists_ancestors_eq hdecl
  have hdeclUp : decl.ancestors = [.root t] := Node.ancestors_of_parent? hparent
  have hsplit : i.ancestors = (inner ++ [decl]) ++ [.root t] := by
    rw [hinner, hdeclUp, List.append_assoc]
    rfl
  -- what is around both would be around the declaration, which `main` is not
  have hnotMain : decl ≠ main := by
    rintro rfl
    rw [hkind] at hmain
    exact absurd hmain (by decide)
  have hnotRoot : decl ≠ .root t := by
    rintro rfl
    exact nomatch hparent
  have hmainUp : main.ancestors = [.root t] := Node.ancestors_of_parent? hmainParent
  have hbodyUp : body.ancestors = [main, .root t] := by
    rw [Node.ancestors_of_parent? hbodyParent, hmainUp]
  have hsplit' : s.ancestors = [body, main] ++ [.root t] := hup
  refine NameTable.lookup_eq_iff_of_tops ht hi hplace hsplit hsplit' ?_
  intro z hz hzs
  have hbelow : decl = z ∨ decl ∈ z.ancestors := by
    rcases List.mem_append.mp hz with hz | hz
    · obtain ⟨front, back, rfl⟩ := List.append_of_mem hz
      refine .inr ?_
      have hzUp : i.ancestors = front ++ z :: (back ++ decl :: decl.ancestors) := by
        rw [hinner, List.append_assoc]
        rfl
      rw [Node.ancestors_of_ancestors_eq hzUp]
      exact List.mem_append_right back List.mem_cons_self
    · exact .inl (List.mem_singleton.mp hz).symm
  rw [hup] at hzs
  simp only [List.mem_cons, List.not_mem_nil, or_false] at hzs
  rcases hzs with rfl | rfl | rfl
  · rw [hbodyUp] at hbelow
    simp only [List.mem_cons, List.not_mem_nil, or_false] at hbelow
    rcases hbelow with rfl | h | h
    · rw [hdeclUp] at hbodyUp
      exact nomatch (List.cons.inj hbodyUp).2
    · exact hnotMain h
    · exact hnotRoot h
  · rw [hmainUp, List.mem_singleton] at hbelow
    exact hbelow.elim hnotMain hnotRoot
  · exact hbelow.elim hnotRoot fun h => absurd h List.not_mem_nil

/-- A declaration encloses the names that it declares. -/
theorem Declarator.mem_ancestors_peel {source : String} {base : CType} {n : Node}
    (hname : (peel source n base).1 = some x) : x = n ∨ n ∈ x.ancestors := by
  have hbelow {inner : Node} (hinner : inner.parent? = some n)
      (hx : x = inner ∨ inner ∈ x.ancestors) : n ∈ x.ancestors := by
    have hup : n ∈ inner.ancestors := by
      rw [Node.ancestors_of_parent? hinner]
      exact List.mem_cons_self
    rcases hx with rfl | hx
    · exact hup
    · exact Node.mem_ancestors_trans hup hx
  rcases peel_fst_cases hname with ⟨rfl, -⟩ | ⟨inner, base', hinner | hinner, hname⟩
  · exact .inl rfl
  · exact .inr (hbelow (Node.parent?_of_mem_children (List.mem_of_find?_eq_some hinner))
      (mem_ancestors_peel hname))
  · exact .inr (hbelow (Node.parent?_of_mem_children
      (List.mem_filter.mp (List.mem_of_head? hinner)).1) (mem_ancestors_peel hname))
termination_by n.size
decreasing_by
  · exact Node.size_lt_of_field? hinner
  · exact Node.size_lt_of_firstNamed? hinner

theorem Declarator.mem_ancestors_name {source : String} {decl : Node} {d : Declarator}
    (hd : d ∈ declarators source decl) : decl ∈ d.name.ancestors := by
  obtain ⟨hn, base, hpeel⟩ := exists_peel_of_mem_declarators hd
  have hup : decl ∈ d.node.ancestors := by
    rw [Node.ancestors_of_parent? (Node.parent?_of_mem_children (List.mem_filter.mp hn).1)]
    exact List.mem_cons_self
  rcases mem_ancestors_peel hpeel with h | h
  · rwa [h]
  · exact Node.mem_ancestors_trans hup h

/-! ## Evaluated expressions -/

/-- **An identifier that an edit before a statement evaluates** means the same from the statement
exactly when no construct in between tells its place apart from there. -/
theorem EditTemplate.Sees.binding?_eq_iff {e : EditTemplate} (h : e.Sees u m x)
    (hu : u.root = .root t) (hfile : u.IsOneFile) (hm : m.root.PlaceOf t)
    (hanchor : e.anchor = .before name) (hs : m.node? name = some s) (hi : i ∈ x.identifiers) :
    u.binding? i = u.meaningFrom i s ↔ u.SeesAlike i i s := by
  rcases h with ⟨hbefore, hslot, hx⟩ | ⟨d, hd, rfl, hafter | ⟨hbefore, hstart, hplace⟩⟩
  · obtain rfl := Anchor.before.inj (hanchor.symm.trans hbefore)
    exact SourceUnit.meaningFrom_eq_iff_of_mem_ancestors
      (mem_ancestors_of_slotAround? (hslot s hs) hx) hi
  · rw [hanchor] at hafter
    contradiction
  · obtain rfl := Anchor.before.inj (hanchor.symm.trans hbefore)
    obtain ⟨decl, file, hdecl, hkind, hparent, hroot⟩ := hplace
    have hdeclPlace := hm.of_parent? hdecl
    obtain ⟨rfl, ht⟩ := hfile.eq_root hu (hdeclPlace.of_parent? hparent) hroot
    obtain ⟨decl', hdecl', -, hmem⟩ := SourceUnit.exists_mem_declarators hm hd
    obtain rfl := Option.some.inj (hdecl.symm.trans hdecl')
    exact meaningFrom_eq_iff_of_startOfMain hu ht
      ((Declarator.placeOf_name hdeclPlace hmem).of_mem_identifiers hi)
      (Node.mem_ancestors_of_mem_identifiers hi (Declarator.mem_ancestors_name hmem)) hkind hparent
      (hstart s hs)

namespace Pipeline

variable {passes : List Pass} {validateOutput dryRun : Bool} {p : Pass} {phase : Phase}
  {vs : List Visit} {v : Visit} {e : EditTemplate} {accepted : EditSet}
  {numbering numbering' : Numbering} {text : String}

/-- **What a pipeline's probes evaluate.**  Of whatever passes a pipeline is built, a text that it
inserts before a statement has one of the forms of inserted text; and each identifier in the
expressions that it evaluates means at the statement what it means at its own place, exactly when
every construct around one of the two places alone leaves its name alone or binds it alike. -/
theorem lookup_eq_iff_of_evaluated
    (hpasses : ∀ p ∈ passes, ∃ config kind, p = Pass.ofKind config kind)
    (hu : u.root = .root t) (hfile : u.IsOneFile)
    (hp : p ∈ (build passes validateOutput dryRun).passes) (hvs : p.visits u phase = .ok vs)
    (hv : v ∈ vs) (he : e ∈ v.rule.edits) (hanchor : e.anchor = .before name)
    (hs : v.found.node? name = some s)
    (htext : (e.makeText ⟨u, accepted⟩ v.found).run numbering = .ok (some text, numbering')) :
    ∃ exprs draws, Inserted u exprs draws text ∧ ∀ x ∈ exprs, ∀ i ∈ x.identifiers,
      (u.binding? i = u.meaningFrom i s ↔ u.SeesAlike i i s) := by
  obtain ⟨config, kind, rfl⟩ : ∃ config kind, p = Pass.ofKind config kind := by
    rcases mem_passes_build hp with rfl | hp
    · exact ⟨{}, .braces, rfl⟩
    · exact hpasses p hp
  obtain ⟨hrule, ms, hms, hfound⟩ := Pass.mem_visits hvs hv
  have hlisted := Pass.listed_of_mem hrule
  have hoffers := (Rule.offers_of_mem_matchesIn hms hfound).1
  have hwithin := (hlisted.insertive.of_offers hu hoffers).1
  -- late rules write at the start of the file, and so before no statement
  have hphase : v.rule.phase = .traversal := by
    cases h : v.rule.phase with
    | traversal => rfl
    | late =>
      obtain ⟨makeText, hedits, -⟩ := hlisted.heads h
      rw [hedits] at he
      obtain rfl := List.mem_singleton.mp he
      exact nomatch hanchor
  obtain ⟨draws, -, exprs, hsees, hinserted⟩ :=
    hlisted.writes hphase e he accepted hu hoffers hwithin htext
  exact ⟨exprs, draws, hinserted, fun x hx i hi =>
    (hsees x hx).binding?_eq_iff hu hfile hwithin.root hanchor hs hi⟩

/-! ## A sum in the header of a loop -/

/-- A function whose loop adds to its own variable in the condition. -/
def countingText : String :=
  "void f(int *a) \x7b for (int i = 0; a[i + 1]; i++) \x7b \x7d \x7d\n"

/-- The tree of the function. -/
def countingTree : Tree :=
  .node .sourceUnit none ⟨0, 54⟩ false
    [.node .functionDefinition none ⟨0, 53⟩ false
       [.node (.other "primitive_type") (some .type) ⟨0, 4⟩ false [],
        .node .functionDeclarator (some .declarator) ⟨5, 14⟩ false
          [.node .identifier (some .declarator) ⟨5, 6⟩ false [],
           .node (.other "parameter_list") (some .parameters) ⟨6, 14⟩ false
             [.node (.token "(") none ⟨6, 7⟩ false [],
              .node .parameterDeclaration none ⟨7, 13⟩ false
                [.node (.other "primitive_type") (some .type) ⟨7, 10⟩ false [],
                 .node .pointerDeclarator (some .declarator) ⟨11, 13⟩ false
                   [.node (.token "*") none ⟨11, 12⟩ false [],
                    .node .identifier (some .declarator) ⟨12, 13⟩ false []]],
              .node (.token ")") none ⟨13, 14⟩ false []]],
        .node .compoundStatement (some .body) ⟨15, 53⟩ false
          [.node (.token "\x7b") none ⟨15, 16⟩ false [],
           .node .forStatement none ⟨17, 51⟩ false
             [.node (.token "for") none ⟨17, 20⟩ false [],
              .node (.token "(") none ⟨21, 22⟩ false [],
              .node .declaration (some .initializer) ⟨22, 32⟩ false
                [.node (.other "primitive_type") (some .type) ⟨22, 25⟩ false [],
                 .node .initDeclarator (some .declarator) ⟨26, 31⟩ false
                   [.node .identifier (some .declarator) ⟨26, 27⟩ false [],
                    .node (.token "=") none ⟨28, 29⟩ false [],
                    .node .numberLiteral (some .value) ⟨30, 31⟩ false []],
                 .node (.token ";") none ⟨31, 32⟩ false []],
              .node .subscriptExpression (some .condition) ⟨33, 41⟩ false
                [.node .identifier (some .argument) ⟨33, 34⟩ false [],
                 .node (.token "[") none ⟨34, 35⟩ false [],
                 .node .binaryExpression (some .index) ⟨35, 40⟩ false
                   [.node .identifier (some .left) ⟨35, 36⟩ false [],
                    .node (.token "+") (some .operator) ⟨37, 38⟩ false [],
                    .node .numberLiteral (some .right) ⟨39, 40⟩ false []],
                 .node (.token "]") none ⟨40, 41⟩ false []],
              .node (.token ";") none ⟨41, 42⟩ false [],
              .node .updateExpression (some (.other "update")) ⟨43, 46⟩ false
                [.node .identifier (some .argument) ⟨43, 44⟩ false [],
                 .node (.token "++") (some .operator) ⟨44, 46⟩ false []],
              .node (.token ")") none ⟨46, 47⟩ false [],
              .node .compoundStatement (some .body) ⟨48, 51⟩ false
                [.node (.token "\x7b") none ⟨48, 49⟩ false [],
                 .node (.token "\x7d") none ⟨50, 51⟩ false []]],
           .node (.token "\x7d") none ⟨52, 53⟩ false []]]]

/-- The function as a file. -/
def countingUnit : SourceUnit :=
  ⟨"t.c", countingText, .root countingTree, NameTable.build countingText (.root countingTree)⟩

/-- The probe of the operands of `i + 1`. -/
def countingProbe : String :=
  "/*I:ID0:VARREF_INTEGER:int:i:int:1:+:*/if (print_flag_int[0]!=2) \x7b" ++
    "printf(\"INT:0:%lld:%lld\\n\",(long long)(i),(long long)(1));print_flag_int[0]++;\x7d\n"

/-- A match of the rule of integers as far as the meanings of its names go: the kind of the
statement that it goes by, what the identifiers of its left operand mean at their places and before
the statement, and the text. -/
structure Placed where
  kind : Kind
  meanings : List (Option NameMeaning × Option NameMeaning)
  text : Option String
  deriving DecidableEq

/-- A match in the file as a placed probe. -/
def placed? (m : Match) : Option Placed := do
  let s ← m.node? "stmt"
  let x ← m.node? "left"
  let made ← ((Observation.integerOperands ⟨countingUnit, {}⟩ m).run {}).toOption
  some ⟨s.kind, x.identifiers.map fun i =>
    (countingUnit.binding? i, countingUnit.meaningFrom i s), made.1⟩

theorem matches_counting :
    (match Observation.integerRule.matchesIn countingUnit with
      | .ok ms => ms.map placed?
      | .error _ => []) =
      [some ⟨.forStatement, [(some ⟨.blockVariable, .int⟩, none)], some countingProbe⟩] := by
  decide +kernel

theorem exists_visit_counting : ∃ vs v s x i numbering,
    integerPass.visits countingUnit .traversal = .ok vs ∧ v ∈ vs ∧
      v.rule = Observation.integerRule ∧ v.found.node? "stmt" = some s ∧ s.kind = .forStatement ∧
        v.found.node? "left" = some x ∧ x.identifiers = [i] ∧
          countingUnit.binding? i = some ⟨.blockVariable, .int⟩ ∧
            countingUnit.meaningFrom i s = none ∧
              (Observation.integerOperands ⟨countingUnit, {}⟩ v.found).run {} =
                .ok (some countingProbe, numbering) := by
  have hpass : integerPass.Insertive := Pass.insertive_ofKind _ .instrument
  obtain ⟨vs, hvs⟩ := hpass.exists_visits (t := countingTree) (u := countingUnit) rfl .traversal
  obtain ⟨ms, hms, -⟩ := Observation.insertive_integerRule.exists_matchesIn (t := countingTree)
    (u := countingUnit) rfl
  have hmatches := matches_counting
  rw [hms] at hmatches
  obtain ⟨m, rfl, hm⟩ := List.map_eq_singleton_iff.mp hmatches
  obtain ⟨s, hs, hm⟩ := Option.bind_eq_some_iff.mp hm
  obtain ⟨x, hx, hm⟩ := Option.bind_eq_some_iff.mp hm
  obtain ⟨⟨text, numbering⟩, hmade, hm⟩ := Option.bind_eq_some_iff.mp hm
  obtain ⟨hkind, hmeanings, rfl⟩ := Placed.mk.inj (Option.some.inj hm)
  obtain ⟨i, hi, hmeaning⟩ := List.map_eq_singleton_iff.mp hmeanings
  obtain ⟨hhere, hthere⟩ := Prod.mk.inj hmeaning
  have hsingle : RuleSet.single Observation.integerRule ∈ integerPass.sets :=
    .tail _ (.tail _ (.tail _ (.head _)))
  obtain ⟨index, hv⟩ := Pass.exists_mem_visits hvs hsingle hms List.mem_cons_self
  exact ⟨vs, _, s, x, i, numbering, hvs, hv, rfl, hs, hkind, hx, hi, hhere, hthere,
    eq_ok_of_toOption hmade⟩

/-- **A probe before a loop** that evaluates a variable of the loop's own header, which means
nothing before the loop. -/
theorem exists_probe_before_loop :
    SourceUnit.ofTree? "t.c" countingText countingTree = .ok countingUnit ∧
      ∃ p ∈ (build [integerPass] false true).passes, ∃ vs v e s x i numbering,
        p.visits countingUnit .traversal = .ok vs ∧ v ∈ vs ∧ e ∈ v.rule.edits ∧
          e.anchor = .before "stmt" ∧ v.found.node? "stmt" = some s ∧ s.kind = .forStatement ∧
            v.found.node? "left" = some x ∧ i ∈ x.identifiers ∧
              (e.makeText ⟨countingUnit, {}⟩ v.found).run {} =
                .ok (some countingProbe, numbering) ∧
                countingUnit.binding? i = some ⟨.blockVariable, .int⟩ ∧
                  countingUnit.meaningFrom i s = none := by
  obtain ⟨vs, v, s, x, i, numbering, hvs, hv, hrule, hs, hkind, hx, hi, hhere, hthere, htext⟩ :=
    exists_visit_counting
  refine ⟨rfl, integerPass, .tail _ (.head _), vs, v,
    ⟨.before "stmt", Observation.integerOperands⟩, s, x, i, numbering, hvs, hv, ?_, rfl, hs, hkind,
    hx, ?_, htext, hhere, hthere⟩
  · rw [hrule]
    exact List.mem_cons_self
  · rw [hi]
    exact List.mem_singleton_self i

/-- The condition on that probe. -/
theorem lookup_eq_iff_counting : ∃ vs v s numbering,
    integerPass.visits countingUnit .traversal = .ok vs ∧ v ∈ vs ∧
      v.found.node? "stmt" = some s ∧
        (Observation.integerOperands ⟨countingUnit, {}⟩ v.found).run {} =
          .ok (some countingProbe, numbering) ∧
          ∃ exprs draws, Inserted countingUnit exprs draws countingProbe ∧
            ∀ x ∈ exprs, ∀ i ∈ x.identifiers, (countingUnit.binding? i =
              countingUnit.meaningFrom i s ↔ countingUnit.SeesAlike i i s) := by
  obtain ⟨vs, v, s, x, i, numbering, hvs, hv, hrule, hs, -, -, -, -, -, htext⟩ :=
    exists_visit_counting
  have hedit : ⟨.before "stmt", Observation.integerOperands⟩ ∈ v.rule.edits := by
    rw [hrule]
    exact List.mem_cons_self
  have hpass : integerPass ∈ (build [integerPass] false true).passes := .tail _ (.head _)
  exact ⟨vs, v, s, numbering, hvs, hv, hs, htext,
    lookup_eq_iff_of_evaluated (t := countingTree) (fun p hp => ⟨_, _, List.mem_singleton.mp hp⟩)
      rfl (by decide +kernel) hpass hvs hv hedit rfl hs htext⟩

end Pipeline

end ProbeWeaver
