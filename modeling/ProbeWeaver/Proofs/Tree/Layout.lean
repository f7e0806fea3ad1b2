import ProbeWeaver.Proofs.Tree.Places

/-!
# Proofs/Tree/Layout — trees whose children lie in order inside their parents

A tree is laid out when the children of each node come one after the other, do not overlap, and lie
inside the node.  In such a tree two places are apart unless one is within the other
(`PlaceOf.within_or_apart`).
-/

namespace ProbeWeaver

namespace Tree

mutual

/-- **The tree is laid out**: children in order, disjoint and inside their parent. -/
def isLaidOut : Tree → Bool
  | .node _ _ s _ cs => areLaidOut s.start s.stop cs

/-- The trees are laid out one after the other between two offsets. -/
def areLaidOut : Nat → Nat → List Tree → Bool
  | i, j, [] => i ≤ j
  | i, j, t :: ts => i ≤ t.span.start && t.isLaidOut && areLaidOut t.span.stop j ts

end

variable {t u v : Tree} {ts : List Tree} {i j k m : Nat}

theorem areLaidOut_cons : areLaidOut i j (t :: ts) = true ↔
    i ≤ t.span.start ∧ t.isLaidOut = true ∧ areLaidOut t.span.stop j ts = true := by
  rw [areLaidOut, Bool.and_eq_true_iff, Bool.and_eq_true_iff, decide_eq_true_iff, and_assoc]

mutual

theorem start_le_stop : ∀ {t : Tree}, t.isLaidOut = true → t.span.start ≤ t.span.stop
  | .node _ _ _ _ cs, h => by
      rw [isLaidOut] at h
      exact le_of_areLaidOut h

theorem le_of_areLaidOut : ∀ {ts : List Tree} {i j : Nat}, areLaidOut i j ts = true → i ≤ j
  | [], i, j, h => by
      rw [areLaidOut] at h
      exact of_decide_eq_true h
  | t :: ts, i, j, h => by
      obtain ⟨hstart, ht, hts⟩ := areLaidOut_cons.mp h
      have hspan := start_le_stop ht
      have hrest := le_of_areLaidOut hts
      omega

end

/-- Trees from some point on are laid out behind the one before. -/
theorem areLaidOut_drop : ∀ {ts : List Tree} {i k : Nat}, areLaidOut i j ts = true →
    ts[k]? = some u → i ≤ u.span.start ∧ u.isLaidOut = true ∧
      areLaidOut u.span.stop j (ts.drop (k + 1)) = true
  | t :: ts, i, 0, h, hu => by
      obtain rfl := Option.some.inj hu
      exact areLaidOut_cons.mp h
  | t :: ts, i, k + 1, h, hu => by
      obtain ⟨hstart, ht, hts⟩ := areLaidOut_cons.mp h
      obtain ⟨hu, hrest⟩ := areLaidOut_drop hts hu
      have hspan := start_le_stop ht
      exact ⟨by omega, hrest⟩

/-- **Of two children the first** ends before the second starts. -/
theorem stop_le_start_of_lt (h : areLaidOut i j ts = true) (hu : ts[k]? = some u)
    (hv : ts[m]? = some v) (hkm : k < m) : u.span.stop ≤ v.span.start := by
  obtain ⟨-, -, hrest⟩ := areLaidOut_drop h hu
  have hv' : (ts.drop (k + 1))[m - (k + 1)]? = some v := by
    rw [List.getElem?_drop, show k + 1 + (m - (k + 1)) = m by omega]
    exact hv
  exact (areLaidOut_drop hrest hv').1

theorem isLaidOut_iff : t.isLaidOut = areLaidOut t.span.start t.span.stop t.children := by
  cases t with
  | node k f s d cs => rw [isLaidOut]; rfl

end Tree

namespace Node

variable {t u : Tree} {a b n p : Node} {i j : Nat}

/-- Edges make a span. -/
theorem span_eq_of_edges (hstart : a.start = b.start) (hstop : a.stop = b.stop) :
    a.span = b.span := by
  have hedges : (⟨a.start, a.stop⟩ : Span) = ⟨b.start, b.stop⟩ := by rw [hstart, hstop]
  exact hedges

/-! ## Places and ways -/

/-- **The place is at or below** another one. -/
def isWithin (n a : Node) : Bool := a.path.isSuffixOf n.path

theorem isWithin_iff : n.isWithin a = true ↔ a.path <:+ n.path := List.isSuffixOf_iff_suffix

theorem isWithin_self (n : Node) : n.isWithin n = true := isWithin_iff.mpr (List.suffix_refl _)

theorem isWithin_trans (h : n.isWithin a = true) (h' : a.isWithin b = true) :
    n.isWithin b = true :=
  isWithin_iff.mpr ((isWithin_iff.mp h').trans (isWithin_iff.mp h))

theorem isWithin_child (p : Node) (i : Nat) (u : Tree) : (child p i u).isWithin p = true :=
  isWithin_iff.mpr (List.suffix_cons i p.path)

theorem isWithin_of_mem_ancestors : ∀ {n : Node}, a ∈ n.ancestors → n.isWithin a = true
  | .child p i u, h => by
      rcases List.mem_cons.mp h with rfl | h
      · exact isWithin_child a i u
      · exact isWithin_trans (isWithin_child p i u) (isWithin_of_mem_ancestors h)

/-- What is above a place is not below it. -/
theorem not_isWithin_child (p : Node) (i : Nat) (u : Tree) : p.isWithin (child p i u) = false := by
  rw [Bool.eq_false_iff, Ne, isWithin_iff]
  intro h
  have hlength := h.length_le
  rw [path, List.length_cons] at hlength
  omega

/-- **What is below a place** is at or below one of its children. -/
theorem isWithin_child_iff : (child p i u).isWithin a = true ↔
    a.path = i :: p.path ∨ p.isWithin a = true := by
  rw [isWithin_iff, isWithin_iff, path, List.suffix_cons_iff]

/-- The way tells places of one tree apart. -/
theorem PlaceOf.eq_of_path_eq : ∀ {a b : Node}, a.PlaceOf t → b.PlaceOf t → a.path = b.path → a = b
  | .root _, .root _, ha, hb, _ => congrArg root (Eq.trans ha (Eq.symm hb))
  | .root _, .child .., _, _, h => nomatch h
  | .child .., .root _, _, _, h => nomatch h
  | .child p i u, .child q j v, ha, hb, h => by
      obtain ⟨rfl, hpath⟩ := List.cons.inj h
      obtain rfl := ha.1.eq_of_path_eq hb.1 hpath
      obtain rfl := Option.some.inj (ha.2.symm.trans hb.2)
      rfl

/-- Places within each other are the same. -/
theorem PlaceOf.eq_of_isWithin (ha : a.PlaceOf t) (hb : b.PlaceOf t) (hab : a.isWithin b = true)
    (hba : b.isWithin a = true) : a = b := by
  have hsuffix := isWithin_iff.mp hab
  exact ha.eq_of_path_eq hb (hsuffix.eq_of_length_le (isWithin_iff.mp hba).length_le).symm

/-! ## Which child leads to a place -/

/-- **The child of `n` that leads to a place**, by its index. -/
def branch? (n : Node) : Node → Option Nat
  | .root _ => none
  | .child p i _ => if p.path = n.path then some i else branch? n p

theorem branch?_eq_some_iff : ∀ {a : Node},
    branch? n a = some i ↔ (i :: n.path) <:+ a.path
  | .root _ => by
      rw [branch?, path, List.suffix_nil]
      exact iff_of_false nofun nofun
  | .child p j _ => by
      rw [branch?, path, List.suffix_cons_iff]
      split
      · next h =>
        rw [h]
        constructor
        · rintro ⟨⟩
          exact .inl rfl
        · rintro (heq | hsuffix)
          · rw [(List.cons.inj heq).1]
          · have hlength := hsuffix.length_le
            rw [List.length_cons] at hlength
            omega
      · next h =>
        rw [branch?_eq_some_iff (a := p)]
        refine ⟨.inr, fun hor => hor.resolve_left fun heq => h (List.cons.inj heq).2.symm⟩

/-- The child that leads to a place holds it. -/
theorem branch?_eq_some_iff_isWithin : branch? n a = some i ↔ a.isWithin (child n i u) = true := by
  rw [branch?_eq_some_iff, isWithin_iff, path]

/-- **A place within another one** is that one, or below one of its children. -/
theorem isWithin_iff_branch? :
    a.isWithin n = true ↔ a.path = n.path ∨ (branch? n a).isSome = true := by
  induction a with
  | root v =>
    rw [isWithin_iff, path, List.suffix_nil, branch?]
    exact ⟨fun h => .inl h.symm, fun h => h.elim Eq.symm nofun⟩
  | child p j v ih =>
    rw [isWithin_child_iff, ih, branch?, path]
    split
    · next h => exact iff_of_true (.inr (.inl h)) (.inr rfl)
    · next h =>
      refine ⟨fun hor => ?_, fun hor => ?_⟩
      · rcases hor with heq | heq | hsome
        · exact .inl heq.symm
        · exact absurd heq h
        · exact .inr hsome
      · exact hor.elim (fun heq => .inl heq.symm) fun hsome => .inr (.inr hsome)

/-- The child that leads to a place of the tree is there. -/
theorem PlaceOf.exists_child (ha : a.PlaceOf t) (hbranch : branch? n a = some i)
    (hn : n.PlaceOf t) :
    ∃ u, (child n i u).PlaceOf t ∧ a.isWithin (child n i u) = true := by
  induction a with
  | root v => exact nomatch hbranch
  | child p j v ih =>
    rw [branch?] at hbranch
    split at hbranch
    · next h =>
      obtain rfl := Option.some.inj hbranch
      obtain rfl := ha.1.eq_of_path_eq hn h
      exact ⟨v, ha, isWithin_self _⟩
    · obtain ⟨u, hu, hwithin⟩ := ih ha.1 hbranch
      exact ⟨u, hu, isWithin_trans (isWithin_child p j v) hwithin⟩

/-! ## Laid out trees -/

theorem PlaceOf.isLaidOut (ht : t.isLaidOut = true) : ∀ {n : Node}, n.PlaceOf t →
    n.tree.isLaidOut = true
  | .root u, h => by
      obtain rfl : u = t := h
      exact ht
  | .child p i u, h => by
      have hp := PlaceOf.isLaidOut ht h.1
      rw [Tree.isLaidOut_iff] at hp
      exact (Tree.areLaidOut_drop hp h.2).2.1

theorem PlaceOf.start_le_stop (ht : t.isLaidOut = true) (h : n.PlaceOf t) : n.start ≤ n.stop :=
  Tree.start_le_stop (h.isLaidOut ht)

/-- A child lies inside its parent. -/
theorem PlaceOf.span_child (ht : t.isLaidOut = true) (h : (child p i u).PlaceOf t) :
    p.start ≤ u.span.start ∧ u.span.stop ≤ p.stop := by
  have hp := h.1.isLaidOut ht
  rw [Tree.isLaidOut_iff] at hp
  obtain ⟨hstart, -, hrest⟩ := Tree.areLaidOut_drop hp h.2
  exact ⟨hstart, Tree.le_of_areLaidOut hrest⟩

/-- **What is within a place** lies inside it. -/
theorem PlaceOf.span_isWithin (ht : t.isLaidOut = true) : ∀ {b : Node}, b.PlaceOf t →
    a.PlaceOf t → b.isWithin a = true → a.start ≤ b.start ∧ b.stop ≤ a.stop
  | .root u, hb, ha, h => by
      have hpath : a.path = [] := List.suffix_nil.mp (isWithin_iff.mp h)
      obtain rfl := ha.eq_of_path_eq hb hpath
      exact ⟨Nat.le_refl _, Nat.le_refl _⟩
  | .child p i u, hb, ha, h => by
      rcases isWithin_child_iff.mp h with heq | h
      · obtain rfl := ha.eq_of_path_eq hb heq
        exact ⟨Nat.le_refl _, Nat.le_refl _⟩
      · obtain ⟨hstart, hstop⟩ := PlaceOf.span_isWithin ht hb.1 ha h
        obtain ⟨hstart', hstop'⟩ := hb.span_child ht
        exact ⟨Nat.le_trans hstart hstart', Nat.le_trans hstop' hstop⟩

/-- What is below an earlier child ends before what is below a later one. -/
theorem PlaceOf.stop_le_start_of_branch? (ht : t.isLaidOut = true) (ha : a.PlaceOf t)
    (hb : b.PlaceOf t) (hn : n.PlaceOf t) (hi : branch? n a = some i) (hj : branch? n b = some j)
    (hij : i < j) : a.stop ≤ b.start := by
  obtain ⟨u, hu, hau⟩ := ha.exists_child hi hn
  obtain ⟨v, hv, hbv⟩ := hb.exists_child hj hn
  have hlaid := hn.isLaidOut ht
  rw [Tree.isLaidOut_iff] at hlaid
  have hbetween := Tree.stop_le_start_of_lt hlaid hu.2 hv.2 hij
  exact Nat.le_trans (ha.span_isWithin ht hu hau).2
    (Nat.le_trans hbetween (hb.span_isWithin ht hv hbv).1)

/-- **Two places are apart**, unless one is within the other. -/
theorem PlaceOf.within_or_apart (ht : t.isLaidOut = true) (hb : b.PlaceOf t) : ∀ {a : Node},
    a.PlaceOf t → b.isWithin a = true ∨ a.isWithin b = true ∨ a.stop ≤ b.start ∨ b.stop ≤ a.start
  | .root u, _ => .inl (isWithin_iff.mpr (List.nil_suffix))
  | .child p i u, ha => by
      obtain ⟨hstart, hstop⟩ := ha.span_child ht
      rcases PlaceOf.within_or_apart ht hb ha.1 with h | h | h | h
      · rcases isWithin_iff_branch?.mp h with heq | hsome
        · obtain rfl := hb.eq_of_path_eq ha.1 heq
          exact .inr (.inl (isWithin_child b i u))
        · obtain ⟨j, hj⟩ := Option.isSome_iff_exists.mp hsome
          have hi : branch? p (.child p i u) = some i := by rw [branch?, if_pos rfl]
          rcases Nat.lt_trichotomy i j with hij | rfl | hij
          · exact .inr (.inr (.inl (ha.stop_le_start_of_branch? ht hb ha.1 hi hj hij)))
          · exact .inl (branch?_eq_some_iff_isWithin.mp hj)
          · exact .inr (.inr (.inr (hb.stop_le_start_of_branch? ht ha ha.1 hj hi hij)))
      · exact .inr (.inl (isWithin_trans (isWithin_child p i u) h))
      · exact .inr (.inr (.inl (Nat.le_trans hstop h)))
      · exact .inr (.inr (.inr (Nat.le_trans h hstart)))

/-! ## A walk comes to each place once -/

mutual

theorem isWithin_of_mem_walkTree {here : Node} : ∀ {u : Tree}, n ∈ walkTree here u →
    n.isWithin here = true
  | .node _ _ _ _ _, h => by
      rw [walkTree] at h
      rcases List.mem_cons.mp h with rfl | h
      · exact isWithin_self n
      · obtain ⟨j, -, hj⟩ := exists_branch?_of_mem_walkTrees h
        exact isWithin_iff_branch?.mpr (.inr (by rw [hj]; rfl))

theorem exists_branch?_of_mem_walkTrees {above : Node} : ∀ {us : List Tree} {i : Nat},
    n ∈ walkTrees above i us → ∃ j, i ≤ j ∧ branch? above n = some j
  | [], _, h => absurd h List.not_mem_nil
  | u :: us, i, h => by
      rw [walkTrees] at h
      rcases List.mem_append.mp h with h | h
      · exact ⟨i, Nat.le_refl i, branch?_eq_some_iff_isWithin.mpr (isWithin_of_mem_walkTree h)⟩
      · obtain ⟨j, hij, hj⟩ := exists_branch?_of_mem_walkTrees h
        exact ⟨j, Nat.le_of_succ_le hij, hj⟩

end

mutual

theorem nodup_walkTree {here : Node} : ∀ u : Tree, (walkTree here u).Nodup
  | .node _ _ _ _ cs => by
      rw [walkTree]
      refine List.nodup_cons.mpr ⟨fun h => ?_, nodup_walkTrees cs 0⟩
      obtain ⟨j, -, hj⟩ := exists_branch?_of_mem_walkTrees h
      have hlength := (branch?_eq_some_iff.mp hj).length_le
      rw [List.length_cons] at hlength
      omega

theorem nodup_walkTrees {above : Node} : ∀ (us : List Tree) (i : Nat), (walkTrees above i us).Nodup
  | [], _ => .nil
  | u :: us, i => by
      rw [walkTrees]
      refine List.nodup_append.mpr ⟨nodup_walkTree u, nodup_walkTrees us (i + 1),
        fun a ha b hb heq => ?_⟩
      have hi := branch?_eq_some_iff_isWithin.mpr (isWithin_of_mem_walkTree ha)
      obtain ⟨j, hij, hj⟩ := exists_branch?_of_mem_walkTrees hb
      rw [heq, hj] at hi
      have heq := Option.some.inj hi
      omega

end

theorem nodup_walk (n : Node) : n.walk.Nodup := nodup_walkTree n.tree

end Node

end ProbeWeaver
