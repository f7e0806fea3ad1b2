import Mathlib.Data.List.Pairwise
import ProbeWeaver.Passes.Condition
import ProbeWeaver.Proofs.Rule.Order
import ProbeWeaver.Proofs.Typing.Sight

/-!
# Proofs/Rule/Matches — what a rule matches, none left out

A pattern that names only its main node finds every node that fits, once (`Query.Plain`): each
declarator of a declaration, or each construct of a kind.  So the matches of a rule with such a
pattern are all that its finders and filters accept (`Rule.mem_matchesIn_iff`).
-/

namespace ProbeWeaver

open Node

variable {t : Tree} {u : SourceUnit} {r : Rule} {n m : Node} {found : Finding} {q : Query}

/-! ## Ways that name one node -/

/-- The way that names a node below, or at, the first node that it asked for. -/
def Way.to (first n : Node) : Way := ⟨[("root", n)], first, n⟩

theorem Captures.holds_root : Captures.holds [("root", m)] [("root", n)] = m.sameAs n := by
  rw [holds]
  cases m.sameAs n with
  | true => rfl
  | false => simp [holds]

theorem Way.sameAs_of_outlasts {first : Node}
    (h : (Way.to first m).outlasts (Way.to first n) = true) : m.sameAs n = true := by
  rw [outlasts, Bool.and_eq_true_iff] at h
  exact Captures.holds_root ▸ h.2

/-- **Ways to different nodes**: of two such ways neither outlasts the other. -/
def Way.Separates (way : Node → Way) : Prop :=
  ∀ ⦃m n : Node⦄, (way m).outlasts (way n) = true → m.sameAs n = true

/-- Ways to different nodes are told apart. -/
theorem Way.distinct_map {way : Node → Way} (hway : Way.Separates way) {ns : List Node}
    (h : ns.Pairwise fun m n => m.sameAs n = false) :
    Way.distinct (ns.map way) = ns.map way := by
  induction h with
  | nil => rfl
  | @cons n ns hn _ ih =>
    rw [List.map_cons, distinct, ih]
    refine congrArg _ (List.filter_eq_self.mpr fun w hw => ?_)
    obtain ⟨m, hm, rfl⟩ := List.mem_map.mp hw
    rw [Bool.not_eq_true', Bool.and_eq_false_iff]
    exact .inl (Bool.eq_false_iff.mpr fun hlast =>
      Bool.eq_false_iff.mp (hn m hm) (hway hlast))

/-- **Ways to different nodes** are all settled. -/
theorem Way.settled_map {way : Node → Way} (hway : Way.Separates way) {ns : List Node}
    (h : ns.Pairwise fun m n => m.sameAs n = false) :
    Way.settled (ns.map way) = ns.map way := by
  have : Std.Symm fun m n : Node => m.sameAs n = false :=
    ⟨fun m n hmn => (Bool.beq_comm (a := n.path)).trans hmn⟩
  have hall : (ns.map way).filter (fun w =>
      !(ns.map way).any fun v => v.outlasts w && !w.outlasts v) = ns.map way := by
    refine List.filter_eq_self.mpr fun w hw => ?_
    obtain ⟨n, hn, rfl⟩ := List.mem_map.mp hw
    rw [Bool.not_eq_true', List.any_eq_false]
    intro v hv hlast
    obtain ⟨m, hm, rfl⟩ := List.mem_map.mp hv
    obtain ⟨hlast, hnot⟩ := Bool.and_eq_true_iff.mp hlast
    by_cases hmn : m = n
    · rw [hmn] at hlast hnot
      rw [hlast] at hnot
      contradiction
    · have hne : m.sameAs n = false := h.forall hm hn hmn
      rw [hway hlast] at hne
      contradiction
  rw [settled, hall, distinct_map hway h]

theorem Way.settled_to (first : Node) {ns : List Node}
    (h : ns.Pairwise fun m n => m.sameAs n = false) :
    Way.settled (ns.map (Way.to first)) = ns.map (Way.to first) :=
  settled_map (fun _ _ => sameAs_of_outlasts) h

/-- **One way** is settled. -/
theorem Way.settled_singleton (w : Way) : Way.settled [w] = [w] := by
  simp [settled, distinct]

/-! ## Parts of a construct -/

/-- What is asked of a named part of a construct. -/
def Shape.part (f : Field) (name : String) : Shape := .node .anyNamed (some f) [name] []

theorem Shape.ways_part (f : Field) (name : String) (c : Node) : (Shape.part f name).ways c =
    if c.isNamed && c.tree.field == some f then [⟨[(name, c)], c, c⟩] else [] := by
  rw [part, Shape.ways, accepts, NodeTest.accepts, Option.isNone_some, Bool.false_or]
  split <;> rfl

/-- **A named part** is any construct that fills the field. -/
theorem waysBelow_part (f : Field) (name : String) (n : Node) :
    waysBelow [[Shape.part f name]] n n.children =
      (n.namedFillers f).map fun c => ⟨[(name, c)], c, c⟩ := by
  have hfrom (cs : List Node) : waysFrom false (Shape.part f name).ways (waysBelow []) cs =
      (cs.filter fun c => c.isNamed && c.tree.field == some f).map fun c => ⟨[(name, c)], c, c⟩ := by
    induction cs with
    | nil => rfl
    | cons c cs ih =>
      rw [waysFrom, ih, Shape.ways_part, Bool.false_and, if_neg Bool.false_ne_true,
        List.filter_cons]
      split <;> rfl
  rw [waysBelow, waysOfAny, waysOfAny, List.append_nil, show Shape.isPlain _ = false from rfl,
    hfrom, Node.namedFillers, Node.fillers, List.filter_filter]

namespace Condition

/-! ## Two patterns -/

/-- **The ways at a declaration** lead to each of its declarators. -/
theorem waysAt_eachDeclarator (n : Node) : eachDeclarator.waysAt n =
    if n.kind = .declaration then (n.namedFillers .declarator).map (Way.to n) else [] := by
  have hshapes : eachDeclarator.shapes =
      [.node (.kind .declaration) none [] [[Shape.part .declarator "root"]]] := rfl
  rw [Pattern.waysAt, hshapes, List.flatMap_cons, List.flatMap_nil, List.append_nil]
  show Way.settled (Shape.ways _ n) = _
  rw [Shape.ways]
  by_cases hkind : n.kind = .declaration
  · rw [if_pos hkind, if_pos (by simp [Shape.accepts, NodeTest.accepts, hkind]),
      waysBelow_part, List.map_map]
    exact Way.settled_to n (n.pairwise_children.filter _ |>.filter _)
  · rw [if_neg hkind, if_neg (by simp [Shape.accepts, NodeTest.accepts, hkind])]
    rfl

/-- **The ways at a construct** of a kind. -/
theorem waysAt_anyOf (k : Kind) (n : Node) :
    (anyOf [k]).waysAt n = if n.kind = k then [Way.to n n] else [] := by
  have hshapes : (anyOf [k]).shapes = [.node (.kind k) none ["root"] []] := rfl
  rw [Pattern.waysAt, hshapes, List.flatMap_cons, List.flatMap_nil, List.append_nil]
  show Way.settled (Shape.ways _ n) = _
  rw [Shape.ways]
  by_cases hkind : n.kind = k
  · rw [if_pos hkind, if_pos (by simp [Shape.accepts, NodeTest.accepts, hkind]), waysBelow]
    exact Way.settled_to n (List.pairwise_singleton _ n)
  · rw [if_neg hkind, if_neg (by simp [Shape.accepts, NodeTest.accepts, hkind])]
    rfl

end Condition

/-! ## What queries find -/

theorem Query.mem_findings_iff : found ∈ q.findings n ↔
    ∃ m ∈ n.walk, ∃ p ∈ q.patterns, ∃ w ∈ p.waysAt m, matchOf? w.captures = some found := by
  rw [findings, List.mem_filterMap]
  simp only [List.mem_mergeSort, List.mem_flatMap]
  constructor
  · rintro ⟨w, ⟨m, hm, p, hp, hw⟩, h⟩
    exact ⟨m, hm, p, hp, w, hw, h⟩
  · rintro ⟨m, hm, p, hp, w, hw, h⟩
    exact ⟨w, ⟨m, hm, p, hp, hw⟩, h⟩

/-- **A plain query** finds nodes that fit, and names nothing else. -/
def Query.Plain (q : Query) (Fits : Node → Node → Prop) : Prop :=
  ∀ (n : Node) (found : Finding), found ∈ q.findings n ↔
    ∃ m, Fits n m ∧ found = ⟨m, [("root", m)]⟩

/-- The pattern of declarators finds each of them. -/
theorem Condition.plain_eachDeclarator : (Query.ofPattern eachDeclarator).Plain fun top n =>
    ∃ decl ∈ top.walk, decl.kind = .declaration ∧ n ∈ decl.fillers .declarator ∧
      n.isNamed = true := by
  intro top found
  rw [Query.mem_findings_iff]
  constructor
  · rintro ⟨decl, hdecl, p, hp, w, hw, h⟩
    obtain rfl := List.mem_singleton.mp hp
    rw [waysAt_eachDeclarator] at hw
    split at hw
    · next hkind =>
      obtain ⟨n, hn, rfl⟩ := List.mem_map.mp hw
      obtain ⟨hn, hnamed⟩ := List.mem_filter.mp hn
      exact ⟨n, ⟨decl, hdecl, hkind, hn, hnamed⟩, (Option.some.inj h).symm⟩
    · exact absurd hw List.not_mem_nil
  · rintro ⟨n, ⟨decl, hdecl, hkind, hn, hnamed⟩, rfl⟩
    refine ⟨decl, hdecl, _, List.mem_singleton.mpr rfl, Way.to decl n, ?_, rfl⟩
    rw [waysAt_eachDeclarator, if_pos hkind]
    exact List.mem_map_of_mem (List.mem_filter.mpr ⟨hn, hnamed⟩)

/-- The pattern of a kind finds each construct of the kind. -/
theorem Condition.plain_anyOf (k : Kind) : (Query.ofPattern (anyOf [k])).Plain fun top n =>
    n ∈ top.walk ∧ n.kind = k := by
  intro top found
  rw [Query.mem_findings_iff]
  constructor
  · rintro ⟨n, hn, p, hp, w, hw, h⟩
    obtain rfl := List.mem_singleton.mp hp
    rw [waysAt_anyOf] at hw
    split at hw
    · next hkind =>
      obtain rfl := List.mem_singleton.mp hw
      exact ⟨n, ⟨hn, hkind⟩, (Option.some.inj h).symm⟩
    · exact absurd hw List.not_mem_nil
  · rintro ⟨n, ⟨hn, hkind⟩, rfl⟩
    refine ⟨n, hn, _, List.mem_singleton.mpr rfl, Way.to n n, ?_, rfl⟩
    rw [waysAt_anyOf, if_pos hkind]
    exact List.mem_singleton.mpr rfl

/-! ## What rules match -/

namespace Rule

/-- Of the findings with one main node the first is kept. -/
theorem exists_mem_firstPerRoot : ∀ {fs : List Finding}, found ∈ fs →
    ∃ g ∈ firstPerRoot fs, g.root.sameAs found.root = true
  | f :: fs, h => by
      rw [firstPerRoot]
      rcases List.mem_cons.mp h with rfl | h
      · exact ⟨found, List.mem_cons_self, found.root.sameAs_self⟩
      · obtain ⟨g, hg, hsame⟩ := exists_mem_firstPerRoot h
        by_cases hf : g.root.sameAs f.root = true
        · refine ⟨f, List.mem_cons_self, ?_⟩
          rw [sameAs, ← beq_iff_eq.mp hf]
          exact hsame
        · refine ⟨g, List.mem_cons_of_mem f (List.mem_filter.mpr ⟨hg, ?_⟩), hsame⟩
          rw [Bool.not_eq_true] at hf
          rw [hf]
          rfl

/-- **The matches of a rule** whose query is plain: all that finders and filters accept. -/
theorem mem_matchesIn_iff {Fits : Node → Node → Prop} (hq : r.query = .ok q) (hplain : q.Plain Fits)
    (hu : u.root = .root t) {ms : List Match} (h : r.matchesIn u = .ok ms) {m : Match} :
    m ∈ ms ↔ ∃ n, Fits u.root n ∧ r.accept? u ⟨n, [("root", n)]⟩ = some m := by
  rw [matchesIn, hq] at h
  obtain rfl := Except.ok.inj h
  rw [List.mem_filterMap]
  constructor
  · rintro ⟨found, hfound, haccept⟩
    obtain ⟨n, hn, rfl⟩ := (hplain _ _).mp (mem_of_mem_firstPerRoot hfound)
    exact ⟨n, hn, haccept⟩
  · rintro ⟨n, hn, haccept⟩
    have hfound := (hplain u.root _).mpr ⟨n, hn, rfl⟩
    obtain ⟨g, hg, hsame⟩ := exists_mem_firstPerRoot hfound
    obtain ⟨n', hn', rfl⟩ := (hplain _ _).mp (mem_of_mem_firstPerRoot hg)
    have hplace {found : Finding} (h : found ∈ q.findings u.root) : found.root.PlaceOf t := by
      obtain ⟨hmain, hcover⟩ := cover_findings (hu ▸ placeOf_root t) h
      exact (hcover.holds _ hmain).1
    obtain rfl : n' = n := (hplace (mem_of_mem_firstPerRoot hg)).eq_of_sameAs (hplace hfound) hsame
    exact ⟨_, hg, haccept⟩

/-- **The main nodes of the matches** of such a rule fit. -/
theorem fits_of_mem_matchesIn {Fits : Node → Node → Prop} (hq : r.query = .ok q)
    (hplain : q.Plain Fits) (hu : u.root = .root t) {ms : List Match} (h : r.matchesIn u = .ok ms)
    {m : Match} (hm : m ∈ ms) : Fits u.root m.root := by
  obtain ⟨n, hn, haccept⟩ := (mem_matchesIn_iff hq hplain hu h).mp hm
  rw [root_of_accept? haccept]
  exact hn

/-- **A rule about constructs of a kind** does not match one of another kind. -/
theorem sameAs_eq_false_of_kind {k : Kind} (hq : r.query = .ok (.ofPattern (Condition.anyOf [k])))
    (hu : u.root = .root t) {ms : List Match} (h : r.matchesIn u = .ok ms) {m : Match} (hm : m ∈ ms)
    {n : Node} (hn : n.PlaceOf t) (hkind : n.kind ≠ k) : m.root.sameAs n = false := by
  obtain ⟨hwalk, hroot⟩ := fits_of_mem_matchesIn hq (Condition.plain_anyOf k) hu h hm
  have hplace : m.root.PlaceOf t := (hu ▸ placeOf_root t : u.root.PlaceOf t).of_mem_walk hwalk
  exact Bool.eq_false_iff.mpr fun hsame => hkind (hplace.eq_of_sameAs hn hsame ▸ hroot)

end Rule

end ProbeWeaver
