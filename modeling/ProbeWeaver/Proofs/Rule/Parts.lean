import ProbeWeaver.Proofs.Rule.Matches

/-!
# Proofs/Rule/Parts — what a rule matches that looks for a part of its construct

A pattern that names what fills a field has one way for each filler of a construct, and the way to
the first of them ends first.  So its rule matches each construct with the first filler
(`Rule.mem_matchesIn_part_iff`).  A pattern that asks for a filler without a name is plain
(`Query.plain_holding`).
-/

namespace ProbeWeaver

open Node

variable {t : Tree} {u : SourceUnit} {r : Rule} {top n c : Node} {found : Finding} {p : Pattern}
  {kinds : List Kind} {k : Kind} {f : Field} {name : String}

/-! ## Ways to a part -/

/-- The way that names a construct and a part of it. -/
def Way.part (name : String) (n c : Node) : Way := ⟨[("root", n), (name, c)], n, c⟩

theorem Way.separates_part (name : String) (n : Node) : Way.Separates (Way.part name n) := by
  intro c d h
  rw [outlasts, Bool.and_eq_true_iff] at h
  have hholds : Captures.holds [("root", n), (name, c)] [("root", n), (name, d)] = true := h.2
  rw [Captures.holds, sameAs_self, beq_self_eq_true, Bool.and_self, if_pos rfl, Captures.holds,
    beq_self_eq_true, Bool.true_and] at hholds
  by_contra hne
  rw [if_neg hne, Captures.holds, Bool.and_false] at hholds
  contradiction

/-- A construct of a kind with a named part. -/
def Shape.withPart (f : Field) (name : String) (k : Kind) : Shape :=
  .node (.kind k) none ["root"] [[.part f name]]

theorem Shape.waysAt_withPart : (withPart f name k).waysAt n =
    if n.kind = k then (n.namedFillers f).map (Way.part name n) else [] := by
  show ways _ n = _
  rw [withPart, ways]
  by_cases hkind : n.kind = k
  · rw [if_pos hkind, if_pos (by simp [accepts, NodeTest.accepts, hkind]), waysBelow_part,
      List.map_map]
    rfl
  · rw [if_neg hkind, if_neg (by simp [accepts, NodeTest.accepts, hkind])]

/-- **The pattern names a part**: what fills a field of constructs of some kinds. -/
structure Pattern.NamesPart (p : Pattern) (kinds : List Kind) (f : Field) (name : String) :
    Prop where
  shapes : p.shapes = kinds.map (Shape.withPart f name)
  nodup : kinds.Nodup
  ne_root : name ≠ "root"

namespace Pattern.NamesPart

/-- A construct is of one of the kinds at most. -/
private theorem flatMap_kinds : ∀ {kinds : List Kind}, kinds.Nodup →
    (kinds.map (Shape.withPart f name)).flatMap (·.waysAt n) =
      if n.kind ∈ kinds then (n.namedFillers f).map (Way.part name n) else []
  | [], _ => rfl
  | k :: kinds, h => by
      obtain ⟨hk, h⟩ := List.nodup_cons.mp h
      rw [List.map_cons, List.flatMap_cons, flatMap_kinds h, Shape.waysAt_withPart]
      by_cases hkind : n.kind = k
      · rw [if_pos hkind, if_neg (hkind ▸ hk), if_pos (hkind ▸ List.mem_cons_self),
          List.append_nil]
      · simp only [List.mem_cons, hkind, false_or, if_false, List.nil_append]

/-- **The ways at a construct** lead to what fills the field. -/
theorem waysAt (hp : p.NamesPart kinds f name) (n : Node) : p.waysAt n =
    if n.kind ∈ kinds then (n.namedFillers f).map (Way.part name n) else [] := by
  rw [Pattern.waysAt, hp.shapes, flatMap_kinds hp.nodup]
  split
  · exact Way.settled_map (Way.separates_part name n) (n.pairwise_children.filter _ |>.filter _)
  · rfl

/-! ## Findings of a part -/

/-- The constructs with their parts, in the order of the tree. -/
private def pairs (kinds : List Kind) (f : Field) (top : Node) : List (Node × Node) :=
  top.walk.flatMap fun n => if n.kind ∈ kinds then (n.namedFillers f).map (n, ·) else []

private theorem mem_pairs : (n, c) ∈ pairs kinds f top ↔
    n ∈ top.walk ∧ n.kind ∈ kinds ∧ c ∈ n.namedFillers f := by
  rw [pairs, List.mem_flatMap]
  constructor
  · rintro ⟨m, hm, h⟩
    split at h
    · next hkind =>
      obtain ⟨d, hd, h⟩ := List.mem_map.mp h
      obtain ⟨rfl, rfl⟩ := Prod.mk.inj h
      exact ⟨hm, hkind, hd⟩
    · exact absurd h List.not_mem_nil
  · rintro ⟨hn, hkind, hc⟩
    exact ⟨n, hn, by rw [if_pos hkind]; exact List.mem_map_of_mem hc⟩

/-- The finding of a part. -/
private def findingOf (name : String) (pair : Node × Node) : Finding :=
  ⟨pair.1, [("root", pair.1), (name, pair.2)]⟩

private theorem findingOf_inj {a b : Node × Node} :
    findingOf name a = findingOf name b ↔ a = b := by
  simp [findingOf, Prod.ext_iff]

private theorem matchOf?_part (hname : name ≠ "root") (pair : Node × Node) :
    Query.matchOf? (Way.part name pair.1 pair.2).captures = some (findingOf name pair) := by
  show ([(name, pair.2), ("root", pair.1)].lookup "root").map _ = _
  rw [List.lookup_cons, beq_false_of_ne hname.symm]
  rfl

/-- Findings of parts come in the order of the parts. -/
private theorem findings_eq (hp : p.NamesPart kinds f name) (top : Node) :
    (Query.ofPattern p).findings top =
      ((pairs kinds f top).mergeSort fun a b => !b.2.precedes a.2).map (findingOf name) := by
  have hways : (top.walk.flatMap fun m => (Query.ofPattern p).patterns.flatMap (·.waysAt m)) =
      (pairs kinds f top).map fun pair => Way.part name pair.1 pair.2 := by
    rw [pairs, List.map_flatMap]
    refine congrArg (List.flatMap · top.walk) (funext fun n => ?_)
    rw [Query.ofPattern, List.flatMap_singleton, hp.waysAt]
    split
    · rw [List.map_map]
      rfl
    · rfl
  have hsort : ((pairs kinds f top).map fun pair => Way.part name pair.1 pair.2).mergeSort
      Way.endsNoLater = ((pairs kinds f top).mergeSort fun a b => !b.2.precedes a.2).map fun pair =>
        Way.part name pair.1 pair.2 :=
    (List.map_mergeSort (f := fun pair : Node × Node => Way.part name pair.1 pair.2)
      fun a _ b _ => rfl).symm
  rw [Query.findings, hways, hsort, List.filterMap_map, ← List.filterMap_eq_map]
  exact congrArg (List.filterMap · _) (funext (matchOf?_part hp.ne_root))

private theorem mem_findings (hp : p.NamesPart kinds f name) :
    found ∈ (Query.ofPattern p).findings top ↔ ∃ n c, n ∈ top.walk ∧ n.kind ∈ kinds ∧
      c ∈ n.namedFillers f ∧ found = findingOf name (n, c) := by
  rw [findings_eq hp, List.mem_map]
  constructor
  · rintro ⟨⟨n, c⟩, hmem, rfl⟩
    obtain ⟨hn, hkind, hc⟩ := mem_pairs.mp (List.mem_mergeSort.mp hmem)
    exact ⟨n, c, hn, hkind, hc, rfl⟩
  · rintro ⟨n, c, hn, hkind, hc, rfl⟩
    exact ⟨(n, c), List.mem_mergeSort.mpr (mem_pairs.mpr ⟨hn, hkind, hc⟩), rfl⟩

/-- The findings are sorted by their parts. -/
private theorem pairwise_findings (hp : p.NamesPart kinds f name) (top : Node) :
    ((Query.ofPattern p).findings top).Pairwise fun found g => ∀ n m c d,
      found = findingOf name (n, c) → g = findingOf name (m, d) → d.precedes c = false := by
  have htrans (a b c : Node × Node) (hab : (!b.2.precedes a.2) = true)
      (hbc : (!c.2.precedes b.2) = true) : (!c.2.precedes a.2) = true := by
    rw [Bool.not_eq_true', precedes, decide_eq_false_iff_not] at *
    exact List.le_trans hab hbc
  have htotal (a b : Node × Node) : ((!b.2.precedes a.2) || !a.2.precedes b.2) = true := by
    rw [Bool.or_eq_true_iff, Bool.not_eq_true', Bool.not_eq_true', precedes, precedes,
      decide_eq_false_iff_not, decide_eq_false_iff_not]
    exact List.le_total _ _
  rw [findings_eq hp, List.pairwise_map]
  refine (List.pairwise_mergeSort htrans htotal _).imp fun {a b} hab n m c d ha hb => ?_
  obtain rfl := findingOf_inj.mp ha
  obtain rfl := findingOf_inj.mp hb
  exact (Bool.not_eq_true' _).mp hab

end Pattern.NamesPart

/-! ## The first finding of a construct -/

/-- **What is kept of a sorted list** comes before all else with its main node. -/
theorem Rule.eq_or_of_mem_firstPerRoot {R : Finding → Finding → Prop} {g : Finding} :
    ∀ {fs : List Finding}, fs.Pairwise R → found ∈ firstPerRoot fs → g ∈ fs →
      g.root.sameAs found.root = true → g = found ∨ R found g
  | f :: fs, h, hfound, hg, hsame => by
      obtain ⟨hf, h⟩ := List.pairwise_cons.mp h
      rw [firstPerRoot] at hfound
      rcases List.mem_cons.mp hfound with rfl | hfound
      · exact (List.mem_cons.mp hg).imp id (hf g)
      · obtain ⟨hfound, hother⟩ := List.mem_filter.mp hfound
        rcases List.mem_cons.mp hg with rfl | hg
        · rw [sameAs] at hsame
          rw [sameAs, Bool.beq_comm, hsame] at hother
          contradiction
        · exact eq_or_of_mem_firstPerRoot h hfound hg hsame

/-- The first filler comes before the others. -/
theorem Node.head?_namedFillers (hc : c ∈ n.namedFillers f)
    (h : ∀ d ∈ n.namedFillers f, d.precedes c = false) : (n.namedFillers f).head? = some c := by
  have hsorted : (n.namedFillers f).Pairwise fun a b => a.precedes b = true :=
    (n.pairwise_precedes.filter _).filter _
  cases hfillers : n.namedFillers f with
  | nil => exact absurd (hfillers ▸ hc) List.not_mem_nil
  | cons d ds =>
    rw [hfillers] at hc hsorted
    rcases List.mem_cons.mp hc with rfl | hc
    · rfl
    · have hbefore := (List.pairwise_cons.mp hsorted).1 c hc
      rw [h d (hfillers ▸ List.mem_cons_self)] at hbefore
      contradiction

namespace Pattern.NamesPart

/-- **What is kept of a construct's findings** has the first filler. -/
private theorem head?_of_mem_firstPerRoot (hp : p.NamesPart kinds f name)
    (hfound : findingOf name (n, c) ∈ Rule.firstPerRoot ((Query.ofPattern p).findings top)) :
    (n.namedFillers f).head? = some c := by
  obtain ⟨n', c', hn, hkind, hc, heq⟩ := (mem_findings hp).mp (Rule.mem_of_mem_firstPerRoot hfound)
  obtain ⟨rfl, rfl⟩ := Prod.mk.inj (findingOf_inj.mp heq)
  refine head?_namedFillers hc fun d hd => ?_
  have hg : findingOf name (n, d) ∈ (Query.ofPattern p).findings top :=
    (mem_findings hp).mpr ⟨n, d, hn, hkind, hd, rfl⟩
  rcases Rule.eq_or_of_mem_firstPerRoot (pairwise_findings hp top) hfound hg n.sameAs_self with
    h | h
  · rw [(Prod.mk.inj (findingOf_inj.mp h)).2, precedes, decide_eq_false_iff_not]
    exact List.lt_irrefl _
  · exact h n n c d rfl rfl

end Pattern.NamesPart

open Pattern.NamesPart in
/-- **The matches of a rule that names a part**: each construct with the first filler of the field,
if finders and filters accept it. -/
theorem Rule.mem_matchesIn_part_iff (hq : r.query = .ok (.ofPattern p))
    (hp : p.NamesPart kinds f name) (hu : u.root = .root t) {ms : List Match}
    (h : r.matchesIn u = .ok ms) {m : Match} :
    m ∈ ms ↔ ∃ n c, n.PlaceOf t ∧ n.kind ∈ kinds ∧ (n.namedFillers f).head? = some c ∧
      r.accept? u ⟨n, [("root", n), (name, c)]⟩ = some m := by
  rw [matchesIn, hq, hu] at h
  obtain rfl := Except.ok.inj h
  rw [List.mem_filterMap]
  constructor
  · rintro ⟨found, hfound, haccept⟩
    obtain ⟨n, c, hn, hkind, -, rfl⟩ := (mem_findings hp).mp (mem_of_mem_firstPerRoot hfound)
    exact ⟨n, c, (placeOf_root t).of_mem_walk hn, hkind, head?_of_mem_firstPerRoot hp hfound,
      haccept⟩
  · rintro ⟨n, c, hn, hkind, hc, haccept⟩
    have hfound := (mem_findings hp).mpr ⟨n, c, hn.mem_walk, hkind, List.mem_of_head? hc, rfl⟩
    obtain ⟨g, hg, hsame⟩ := exists_mem_firstPerRoot hfound
    obtain ⟨n', c', hn', -, -, rfl⟩ := (mem_findings hp).mp (mem_of_mem_firstPerRoot hg)
    obtain rfl : n' = n := ((placeOf_root t).of_mem_walk hn').eq_of_sameAs hn hsame
    obtain rfl := Option.some.inj ((head?_of_mem_firstPerRoot hp hg).symm.trans hc)
    exact ⟨_, hg, haccept⟩

/-! ## A part without a name -/

/-- A construct of a kind with something in a field. -/
def Shape.holding (f : Field) (k : Kind) : Shape :=
  .node (.kind k) none ["root"] [[.node .anyNamed (some f) [] []]]

/-- A part without a name is the first construct that fills the field. -/
theorem waysBelow_unnamed (f : Field) (n : Node) :
    waysBelow [[.node .anyNamed (some f) [] []]] n n.children =
      (n.namedFillers f).head?.toList.map fun c => ⟨[], c, c⟩ := by
  have hfrom (cs : List Node) : waysFrom true (Shape.node .anyNamed (some f) [] []).ways
      (waysBelow []) cs = ((cs.filter fun c => c.isNamed && c.tree.field == some f).head?.toList.map
        fun c => (⟨[], c, c⟩ : Way)) := by
    induction cs with
    | nil => rfl
    | cons c cs ih =>
      rw [waysFrom, ih, Shape.ways, Shape.accepts, NodeTest.accepts, Option.isNone_some,
        Bool.false_or, List.filter_cons]
      split <;> rfl
  rw [waysBelow, waysOfAny, waysOfAny, List.append_nil, show Shape.isPlain _ = true from rfl, hfrom,
    Node.namedFillers, Node.fillers, List.filter_filter]

theorem Shape.waysAt_holding : (holding f k).waysAt n = if n.kind = k then
    (n.namedFillers f).head?.toList.map fun c => ⟨[("root", n)], n, c⟩ else [] := by
  show ways _ n = _
  rw [holding, ways]
  by_cases hkind : n.kind = k
  · rw [if_pos hkind, if_pos (by simp [accepts, NodeTest.accepts, hkind]), waysBelow_unnamed,
      List.map_map]
    rfl
  · rw [if_neg hkind, if_neg (by simp [accepts, NodeTest.accepts, hkind])]

theorem Pattern.waysAt_holding (hshapes : p.shapes = [.holding f k]) (n : Node) : p.waysAt n =
    if n.kind = k then (n.namedFillers f).head?.toList.map fun c => ⟨[("root", n)], n, c⟩
    else [] := by
  rw [waysAt, hshapes, List.flatMap_singleton, Shape.waysAt_holding]
  split
  · cases (n.namedFillers f).head? with
    | none => rfl
    | some c => exact Way.settled_singleton _
  · rfl

/-- **A pattern that asks for a part** finds each construct of the kind that has one. -/
theorem Query.plain_holding (hshapes : p.shapes = [.holding f k]) :
    (Query.ofPattern p).Plain fun top n => n ∈ top.walk ∧ n.kind = k ∧ n.namedFillers f ≠ [] := by
  intro top found
  rw [mem_findings_iff]
  constructor
  · rintro ⟨n, hn, p', hp, w, hw, h⟩
    obtain rfl := List.mem_singleton.mp hp
    rw [Pattern.waysAt_holding hshapes] at hw
    split at hw
    · next hkind =>
      obtain ⟨c, hc, rfl⟩ := List.mem_map.mp hw
      have hfillers := List.ne_nil_of_mem (List.mem_of_head? (Option.mem_toList.mp hc))
      exact ⟨n, ⟨hn, hkind, hfillers⟩, (Option.some.inj h).symm⟩
    · exact absurd hw List.not_mem_nil
  · rintro ⟨n, ⟨hn, hkind, hfillers⟩, rfl⟩
    obtain ⟨c, cs, hcons⟩ := List.exists_cons_of_ne_nil hfillers
    refine ⟨n, hn, p, List.mem_singleton_self p, ⟨[("root", n)], n, c⟩, ?_, rfl⟩
    rw [Pattern.waysAt_holding hshapes, if_pos hkind, hcons]
    exact List.mem_singleton_self _

/-- **Patterns of the same shapes** find the same. -/
theorem Query.Plain.congr {p' : Pattern} {Fits : Node → Node → Prop}
    (h : (Query.ofPattern p).Plain Fits) (hshapes : p'.shapes = p.shapes) :
    (Query.ofPattern p').Plain Fits := by
  have hways : p'.waysAt = p.waysAt := funext fun n => by
    rw [Pattern.waysAt, Pattern.waysAt, hshapes]
  have hfindings : (Query.ofPattern p').findings = (Query.ofPattern p).findings := by
    funext top
    simp only [findings, ofPattern, List.flatMap_singleton, hways]
  intro top found
  rw [hfindings]
  exact h top found

end ProbeWeaver
