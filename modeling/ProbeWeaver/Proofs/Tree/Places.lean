import ProbeWeaver.SourceUnit

/-!
# Proofs/Tree/Places — looking around never leaves the tree

`PlaceOf t n` says that every step of the way to `n` is a child of the tree `t`.  Whatever a
question about a place finds, above it or below, is a place of the same tree.

* `PlaceOf.mem_walk` — the places of a tree are those that a walk over it visits.
-/

namespace ProbeWeaver

namespace Node

variable {t : Tree} {n m a b : Node} {f : Field} {source : String}

/-- **A place of the tree** `t`. -/
def PlaceOf (t : Tree) : Node → Prop
  | .root u => u = t
  | .child p i u => p.PlaceOf t ∧ p.tree.children[i]? = some u

theorem placeOf_root (t : Tree) : (Node.root t).PlaceOf t := rfl

/-! ## Above -/

theorem PlaceOf.of_mem_ancestors : ∀ {n : Node}, n.PlaceOf t → a ∈ n.ancestors → a.PlaceOf t
  | .root _, _, ha => absurd ha List.not_mem_nil
  | .child p _ _, h, ha => by
      rcases List.mem_cons.mp ha with rfl | ha
      · exact h.1
      · exact PlaceOf.of_mem_ancestors h.1 ha

theorem PlaceOf.of_parent? (h : n.PlaceOf t) (hp : n.parent? = some a) : a.PlaceOf t := by
  cases n with
  | root u => exact nomatch hp
  | child p i u =>
    obtain rfl := Option.some.inj hp
    exact h.1

theorem PlaceOf.of_slotAround? (h : n.PlaceOf t) (ha : n.slotAround? = some a) : a.PlaceOf t :=
  h.of_mem_ancestors (List.mem_of_find?_eq_some ha)

/-! ## Below -/

theorem PlaceOf.of_mem_children (h : n.PlaceOf t) (hm : m ∈ n.children) : m.PlaceOf t := by
  obtain ⟨i, hi, rfl⟩ := List.mem_mapIdx.mp hm
  exact ⟨h, List.getElem?_eq_getElem hi⟩

theorem parent?_of_mem_children (hm : m ∈ n.children) : m.parent? = some n := by
  obtain ⟨i, hi, rfl⟩ := List.mem_mapIdx.mp hm
  rfl

theorem PlaceOf.of_mem_namedChildren (h : n.PlaceOf t) (hm : m ∈ n.namedChildren) : m.PlaceOf t :=
  h.of_mem_children (List.mem_filter.mp hm).1

theorem PlaceOf.of_mem_fillers (h : n.PlaceOf t) (hm : m ∈ n.fillers f) : m.PlaceOf t :=
  h.of_mem_children (List.mem_filter.mp hm).1

theorem PlaceOf.of_field? (h : n.PlaceOf t) (hm : n.field? f = some m) : m.PlaceOf t :=
  h.of_mem_children (List.mem_of_find?_eq_some hm)

theorem PlaceOf.of_firstNamed? (h : n.PlaceOf t) (hm : n.firstNamed? = some m) : m.PlaceOf t :=
  h.of_mem_namedChildren (List.mem_of_head? hm)

/-- The children of a place, from one of them on. -/
theorem PlaceOf.of_drop_children {us : List Tree} {u : Tree} {i : Nat} (h : n.PlaceOf t)
    (hus : n.tree.children.drop i = u :: us) :
    (Node.child n i u).PlaceOf t ∧ n.tree.children.drop (i + 1) = us := by
  have hhead : n.tree.children[i]? = some u := by
    rw [← Nat.add_zero i, ← List.getElem?_drop, hus, List.getElem?_cons_zero]
  refine ⟨⟨h, hhead⟩, ?_⟩
  rw [← List.drop_drop, hus, List.drop_one, List.tail_cons]

mutual

theorem PlaceOf.of_mem_walkTree {here : Node} : ∀ {u : Tree}, here.PlaceOf t → here.tree = u →
    m ∈ walkTree here u → m.PlaceOf t
  | .node _ _ _ _ cs, h, hu, hm => by
      rw [walkTree] at hm
      rcases List.mem_cons.mp hm with rfl | hm
      · exact h
      · exact PlaceOf.of_mem_walkTrees h (by rw [hu]; rfl) hm

theorem PlaceOf.of_mem_walkTrees {above : Node} : ∀ {i : Nat} {us : List Tree}, above.PlaceOf t →
    above.tree.children.drop i = us → m ∈ walkTrees above i us → m.PlaceOf t
  | _, [], _, _, hm => absurd hm List.not_mem_nil
  | i, u :: us, h, hus, hm => by
      obtain ⟨hchild, hrest⟩ := h.of_drop_children hus
      rw [walkTrees] at hm
      rcases List.mem_append.mp hm with hm | hm
      · exact PlaceOf.of_mem_walkTree hchild rfl hm
      · exact PlaceOf.of_mem_walkTrees h hrest hm

end

/-- **A walk stays in the tree.** -/
theorem PlaceOf.of_mem_walk (h : n.PlaceOf t) (hm : m ∈ n.walk) : m.PlaceOf t :=
  h.of_mem_walkTree rfl hm

mutual

theorem PlaceOf.of_mem_descendantsTree {here : Node} : ∀ {u : Tree}, here.PlaceOf t →
    here.tree = u → m ∈ descendantsTree here u → m.PlaceOf t
  | .node _ _ _ _ cs, h, hu, hm => by
      rw [descendantsTree] at hm
      exact PlaceOf.of_mem_descendantsTrees h (by rw [hu]; rfl) hm

theorem PlaceOf.of_mem_descendantsTrees {above : Node} : ∀ {i : Nat} {us : List Tree},
    above.PlaceOf t → above.tree.children.drop i = us → m ∈ descendantsTrees above i us →
      m.PlaceOf t
  | _, [], _, _, hm => absurd hm List.not_mem_nil
  | i, u :: us, h, hus, hm => by
      obtain ⟨hchild, hrest⟩ := h.of_drop_children hus
      rw [descendantsTrees] at hm
      rcases List.mem_append.mp hm with hm | hm
      · split at hm
        · rcases List.mem_cons.mp hm with rfl | hm
          · exact hchild
          · exact PlaceOf.of_mem_descendantsTree hchild rfl hm
        · exact absurd hm List.not_mem_nil
      · exact PlaceOf.of_mem_descendantsTrees h hrest hm

end

theorem PlaceOf.of_mem_identifiers (h : n.PlaceOf t) (hm : m ∈ n.identifiers) : m.PlaceOf t := by
  rcases List.mem_cons.mp (List.mem_filter.mp hm).1 with rfl | hm
  · exact h
  · exact h.of_mem_descendantsTree rfl hm

theorem PlaceOf.withoutParens (h : n.PlaceOf t) : n.withoutParens.PlaceOf t := by
  induction n using Node.withoutParens.induct with
  | case1 n hkind inner hinner hattach ih =>
    rw [Node.withoutParens, if_pos hkind, hattach]
    exact ih (h.of_firstNamed? hinner)
  | case2 n hkind hattach =>
    rw [Node.withoutParens, if_pos hkind, hattach]
    exact h
  | case3 n hkind =>
    rw [Node.withoutParens, if_neg hkind]
    exact h

/-! ## Parts and their order -/

/-- The constructs right below that fill a field. -/
def namedFillers (n : Node) (f : Field) : List Node := (n.fillers f).filter (·.isNamed)

theorem precedes_asymm (m n : Node) (h : m.precedes n = true) : ¬ n.precedes m = true := fun h' =>
  List.lt_asymm (of_decide_eq_true h) (of_decide_eq_true h')

/-- Children in order have growing indices. -/
theorem pairwise_path (n : Node) : n.children.Pairwise fun a b =>
    ∃ i j, a.path = i :: n.path ∧ b.path = j :: n.path ∧ i < j := by
  refine List.pairwise_iff_getElem.mpr fun i j hi hj hij => ⟨i, j, ?_, ?_, hij⟩
  all_goals
    simp only [children, List.getElem_mapIdx]
    rfl

/-- Children lie at different places. -/
theorem pairwise_children (n : Node) : n.children.Pairwise fun a b => a.sameAs b = false := by
  refine n.pairwise_path.imp fun ⟨i, j, ha, hb, hij⟩ => Bool.eq_false_iff.mpr fun hsame => ?_
  rw [sameAs, ha, hb] at hsame
  have hindex := (List.cons.inj (beq_iff_eq.mp hsame)).1
  omega

/-- Children come one behind the other. -/
theorem pairwise_precedes (n : Node) : n.children.Pairwise fun a b => a.precedes b = true := by
  refine n.pairwise_path.imp fun ⟨i, j, ha, hb, hij⟩ => ?_
  rw [precedes, decide_eq_true_iff, ha, hb, List.reverse_cons, List.reverse_cons]
  exact List.append_left_lt (.rel hij)

/-- Children at one place are the same. -/
theorem eq_of_mem_children {c d : Node} (hc : c ∈ n.children) (hd : d ∈ n.children)
    (h : c.sameAs d = true) : c = d := by
  obtain ⟨i, hi, rfl⟩ := List.mem_mapIdx.mp hc
  obtain ⟨j, hj, rfl⟩ := List.mem_mapIdx.mp hd
  obtain ⟨rfl, -⟩ := List.cons.inj (beq_iff_eq.mp h)
  rfl

/-! ## Places are visited -/

/-- The walk over children comes to each of them. -/
private theorem mem_walkTrees {above : Node} : ∀ {us : List Tree} {u : Tree} {i j : Nat},
    us[j]? = some u → m ∈ walkTree (.child above (i + j) u) u → m ∈ walkTrees above i us
  | _ :: us, u, i, 0, hu, hm => by
      obtain rfl := Option.some.inj hu
      rw [walkTrees]
      exact List.mem_append_left _ hm
  | _ :: us, u, i, j + 1, hu, hm => by
      rw [walkTrees]
      refine List.mem_append_right _ (mem_walkTrees (i := i + 1) hu ?_)
      rwa [Nat.add_assoc, Nat.add_comm 1 j]

/-- What stands below a visited place is visited. -/
theorem walk_subset_of_child {p : Node} {i : Nat} {u : Tree}
    (hu : p.tree.children[i]? = some u) (hm : m ∈ (Node.child p i u).walk) : m ∈ p.walk := by
  rw [walk]
  cases htree : p.tree with
  | node k f s d cs =>
    rw [htree] at hu
    rw [walkTree]
    refine List.mem_cons_of_mem p (mem_walkTrees (i := 0) (j := i) hu ?_)
    rwa [Nat.zero_add]

theorem mem_walk_self (n : Node) : n ∈ n.walk := by
  rw [walk]
  cases n.tree with
  | node k f s d cs =>
    rw [walkTree]
    exact List.mem_cons_self

theorem PlaceOf.walk_subset : ∀ {n : Node}, n.PlaceOf t → m ∈ n.walk → m ∈ (Node.root t).walk
  | .root u, h, hm => by
      obtain rfl : u = t := h
      exact hm
  | .child _ _ _, h, hm => PlaceOf.walk_subset h.1 (walk_subset_of_child h.2 hm)

/-- **Every place of a tree is visited** by the walk from the root. -/
theorem PlaceOf.mem_walk (h : n.PlaceOf t) : n ∈ (Node.root t).walk :=
  h.walk_subset (mem_walk_self n)

mutual

theorem path_ne_nil_of_mem_walkTree {here : Node} : ∀ {u : Tree}, here.path ≠ [] →
    m ∈ walkTree here u → m.path ≠ []
  | .node _ _ _ _ _, hhere, hm => by
      rw [walkTree] at hm
      rcases List.mem_cons.mp hm with rfl | hm
      · exact hhere
      · exact path_ne_nil_of_mem_walkTrees hm

/-- What is below a place is no root. -/
theorem path_ne_nil_of_mem_walkTrees {above : Node} : ∀ {i : Nat} {us : List Tree},
    m ∈ walkTrees above i us → m.path ≠ []
  | _, [], hm => absurd hm List.not_mem_nil
  | i, u :: us, hm => by
      rw [walkTrees] at hm
      rcases List.mem_append.mp hm with hm | hm
      · have hchild : (Node.child above i u).path ≠ [] := List.cons_ne_nil i above.path
        exact path_ne_nil_of_mem_walkTree hchild hm
      · exact path_ne_nil_of_mem_walkTrees hm

end

end Node

/-! ## Declared names -/

namespace Declarator

variable {t : Tree} {n name decl : Node} {d : Declarator} {source : String}

/-- The kinds of names that declarators declare. -/
def nameKinds : List Kind := [.identifier, .fieldIdentifier, .typeIdentifier]

/-- A declarator is its own name or hands the question on to the declarator inside. -/
theorem peel_fst_cases {base : CType} (h : (peel source n base).1 = some name) :
    (name = n ∧ n.kind ∈ nameKinds) ∨
      ∃ inner base', (n.field? .declarator = some inner ∨ n.firstNamed? = some inner) ∧
        (peel source inner base').1 = some name := by
  rw [peel] at h
  split at h
  case h_1 hkind | h_2 hkind | h_3 hkind =>
    exact .inl ⟨(Option.some.inj h).symm, by rw [hkind]; decide⟩
  all_goals repeat' split at h
  all_goals
    first
    | exact .inr ⟨_, _, .inl ‹n.field? .declarator = some _›, h⟩
    | exact .inr ⟨_, _, .inr ‹n.firstNamed? = some _›, h⟩
    | contradiction

/-- **The name that a declarator declares** is a place at or below it. -/
theorem placeOf_peel {n : Node} {base : CType} (h : n.PlaceOf t)
    (hname : (peel source n base).1 = some name) : name.PlaceOf t := by
  rcases peel_fst_cases hname with ⟨rfl, -⟩ | ⟨inner, base', hinner | hinner, hname⟩
  · exact h
  · exact placeOf_peel (h.of_field? hinner) hname
  · exact placeOf_peel (h.of_firstNamed? hinner) hname
termination_by n.size
decreasing_by
  · exact Node.size_lt_of_field? hinner
  · exact Node.size_lt_of_firstNamed? hinner

/-- What a declarator declares is a name. -/
theorem kind_peel {n : Node} {base : CType} (hname : (peel source n base).1 = some name) :
    name.kind ∈ nameKinds := by
  rcases peel_fst_cases hname with ⟨rfl, hkind⟩ | ⟨inner, base', hinner | hinner, hname⟩
  · exact hkind
  · exact kind_peel hname
  · exact kind_peel hname
termination_by n.size
decreasing_by
  · exact Node.size_lt_of_field? hinner
  · exact Node.size_lt_of_firstNamed? hinner

/-- What a declarator declares comes from its construct, which fills the declarator field. -/
theorem exists_peel_of_mem_declarators (hd : d ∈ declarators source decl) :
    d.node ∈ decl.fillers .declarator ∧ ∃ base, (peel source d.node base).1 = some d.name := by
  obtain ⟨n, hn, hd⟩ := List.mem_filterMap.mp hd
  obtain ⟨⟨name, type⟩, hpeel, rfl⟩ := Option.map_eq_some_iff.mp hd
  refine ⟨hn, baseType source decl, ?_⟩
  rw [peelNamed?] at hpeel
  split at hpeel
  · next hpeeled =>
    rw [hpeeled, (Prod.mk.inj (Option.some.inj hpeel)).1]
  · contradiction

theorem placeOf_name (h : decl.PlaceOf t) (hd : d ∈ declarators source decl) :
    d.name.PlaceOf t := by
  obtain ⟨hn, base, hpeel⟩ := exists_peel_of_mem_declarators hd
  exact placeOf_peel (h.of_mem_fillers hn) hpeel

theorem kind_name (hd : d ∈ declarators source decl) : d.name.kind ∈ nameKinds := by
  obtain ⟨hn, base, hpeel⟩ := exists_peel_of_mem_declarators hd
  exact kind_peel hpeel

end Declarator

end ProbeWeaver
