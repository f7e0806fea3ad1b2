import ProbeWeaver.Proofs.Text.Slice
import ProbeWeaver.Proofs.Tree.Layout
import ProbeWeaver.Proofs.Typing.Sight

/-!
# Proofs/Tree/Order — places beside each other and walks in order

In a laid out tree the children of one place are apart, and a walk comes to places in the order in
which they start.

* `Node.PlaceOf.eq_or_apart` — for children of one place.
* `Node.PlaceOf.pairwise_start_walk` — for walks.
-/

namespace ProbeWeaver.Node

variable {t : Tree} {n m a b p : Node} {source : String}

/-! ## Places beside each other -/

/-- A place is within itself and what is above it. -/
theorem PlaceOf.isWithin_iff_mem : ∀ {n : Node}, n.PlaceOf t → a.PlaceOf t →
    (n.isWithin a = true ↔ a = n ∨ a ∈ n.ancestors)
  | .root v, hn, ha => by
      rw [isWithin_iff, path, List.suffix_nil, ancestors]
      refine ⟨fun h => .inl (ha.eq_of_path_eq hn h), fun h => ?_⟩
      rcases h with rfl | h
      · rfl
      · exact absurd h List.not_mem_nil
  | .child p i v, hn, ha => by
      rw [isWithin_child_iff, PlaceOf.isWithin_iff_mem hn.1 ha, ancestors, List.mem_cons]
      refine or_congr_left ⟨fun h => ha.eq_of_path_eq hn h, fun h => ?_⟩
      rw [h, path]

/-- **Between a place and one below a child of it** there are only the place and what is in the
child. -/
theorem PlaceOf.eq_or_isWithin_child {inner : Node} (ha : a.PlaceOf t) (hn : n.PlaceOf t)
    (hchild : inner ∈ n.children) (hm : m.isWithin inner = true) (hma : m.isWithin a = true)
    (han : a.isWithin n = true) : a = n ∨ a.isWithin inner = true := by
  rcases List.suffix_or_suffix_of_suffix (isWithin_iff.mp hma) (isWithin_iff.mp hm) with hup | hdown
  · rcases ((hn.of_mem_children hchild).isWithin_iff_mem ha).mp (isWithin_iff.mpr hup) with rfl | hup
    · exact .inr (isWithin_self a)
    · rw [ancestors_of_parent? (parent?_of_mem_children hchild)] at hup
      rcases List.mem_cons.mp hup with rfl | hup
      · exact .inl rfl
      · exact .inl (ha.eq_of_isWithin hn han (isWithin_of_mem_ancestors hup))
  · exact .inr (isWithin_iff.mpr hdown)

/-- **Children of one place** are the same or apart. -/
theorem PlaceOf.eq_or_apart (ht : t.isLaidOut = true) (ha : a.PlaceOf t) (hb : b.PlaceOf t)
    (hpa : a.parent? = some p) (hpb : b.parent? = some p) :
    a = b ∨ a.stop ≤ b.start ∨ b.stop ≤ a.start := by
  have hbelow {m n : Node} (hm : m.parent? = some p) (hn : n.parent? = some p) :
      m ∉ n.ancestors := fun h => by
    have hshort := length_path_of_mem_ancestors h
    have hlong := length_path_of_mem_ancestors (a := p) (n := m)
      (by rw [ancestors_of_parent? hm]; exact List.mem_cons_self)
    rw [ancestors_of_parent? hn] at h
    rcases List.mem_cons.mp h with rfl | h
    · exact Nat.lt_irrefl _ hlong
    · exact Nat.lt_asymm hlong (length_path_of_mem_ancestors h)
  rcases PlaceOf.within_or_apart ht hb ha with h | h | h
  · exact .inl (((hb.isWithin_iff_mem ha).mp h).resolve_right (hbelow hpa hpb))
  · exact .inl (((ha.isWithin_iff_mem hb).mp h).resolve_right (hbelow hpb hpa)).symm
  · exact .inr h

/-- **Below what encloses a place** there is a child of it that is the place or encloses it. -/
theorem exists_child_of_mem_ancestors : ∀ {n : Node}, a ∈ n.ancestors →
    ∃ b, (b = n ∨ b ∈ n.ancestors) ∧ b.parent? = some a
  | .child p i v, ha => by
      rcases List.mem_cons.mp ha with rfl | ha
      · exact ⟨child a i v, .inl rfl, rfl⟩
      · obtain ⟨b, hb, hparent⟩ := exists_child_of_mem_ancestors ha
        refine ⟨b, .inr ?_, hparent⟩
        rw [ancestors]
        exact List.mem_cons.mpr hb

/-- Two constructs around a place are at different depths. -/
theorem eq_of_mem_ancestors : ∀ {n : Node}, a ∈ n.ancestors → b ∈ n.ancestors →
    a.path.length = b.path.length → a = b
  | .child p i v, ha, hb, heq => by
      rcases List.mem_cons.mp ha with rfl | ha <;> rcases List.mem_cons.mp hb with rfl | hb
      · rfl
      · exact absurd heq (Nat.ne_of_gt (length_path_of_mem_ancestors hb))
      · exact absurd heq (Nat.ne_of_lt (length_path_of_mem_ancestors ha))
      · exact eq_of_mem_ancestors ha hb heq

theorem isWithin_of_mem_children (h : n ∈ p.children) : n.isWithin p = true :=
  isWithin_of_mem_ancestors (ancestors_of_parent? (parent?_of_mem_children h) ▸ List.mem_cons_self)

/-- One child of a place holds what is below. -/
theorem eq_of_isWithin_of_parent? (ha : a.PlaceOf t) (hb : b.PlaceOf t)
    (hpa : a.parent? = some p) (hpb : b.parent? = some p) (hna : n.isWithin a = true)
    (hnb : n.isWithin b = true) : a = b := by
  cases a with
  | root v => exact nomatch hpa
  | child q i v =>
    cases b with
    | root w => exact nomatch hpb
    | child r j w =>
      obtain rfl := Option.some.inj hpa
      obtain rfl := Option.some.inj hpb
      have hij := (branch?_eq_some_iff_isWithin.mpr hna).symm.trans
        (branch?_eq_some_iff_isWithin.mpr hnb)
      obtain rfl := Option.some.inj hij
      exact ha.eq_of_path_eq hb rfl

/-- What has a spelling is not empty. -/
theorem PlaceOf.start_lt_stop (ht : t.isLaidOut = true) (hn : n.PlaceOf t)
    (h : n.text source ≠ "") : n.start < n.stop := by
  refine Nat.lt_of_le_of_ne (hn.start_le_stop ht) fun heq => h ?_
  rw [Node.text, heq, Text.slice_self]

/-! ## Walks -/

theorem walk_subset_of_mem_ancestors : ∀ {n : Node}, n.PlaceOf t → a ∈ n.ancestors →
    m ∈ n.walk → m ∈ a.walk
  | .child p i u, hn, ha, hm => by
      have hp := walk_subset_of_child hn.2 hm
      rcases List.mem_cons.mp ha with rfl | ha
      · exact hp
      · exact walk_subset_of_mem_ancestors hn.1 ha hp

mutual

theorem pairwise_start_walkTree (here : Node) : ∀ {u : Tree}, here.tree = u →
    u.isLaidOut = true → (walkTree here u).Pairwise (fun a b => a.start ≤ b.start) ∧
      ∀ m ∈ walkTree here u, here.start ≤ m.start ∧ m.start ≤ here.stop
  | .node _ _ s _ cs, hu, h => by
      have hstart : here.start = s.start := by rw [start, hu]; rfl
      have hstop : here.stop = s.stop := by rw [stop, hu]; rfl
      rw [Tree.isLaidOut, ← hstart, ← hstop] at h
      obtain ⟨hsorted, hbounds⟩ := pairwise_start_walkTrees here (i := 0) h
      rw [walkTree]
      refine ⟨.cons (fun m hm => (hbounds m hm).1) hsorted, fun m hm => ?_⟩
      rcases List.mem_cons.mp hm with rfl | hm
      · exact ⟨Nat.le_refl _, Tree.le_of_areLaidOut h⟩
      · exact hbounds m hm

theorem pairwise_start_walkTrees (above : Node) : ∀ {us : List Tree} {i j k : Nat},
    Tree.areLaidOut j k us = true →
      (walkTrees above i us).Pairwise (fun a b => a.start ≤ b.start) ∧
        ∀ m ∈ walkTrees above i us, j ≤ m.start ∧ m.start ≤ k
  | [], _, _, _, _ => ⟨.nil, fun _ hm => absurd hm List.not_mem_nil⟩
  | u :: us, i, j, k, h => by
      obtain ⟨hstart, hu, hus⟩ := Tree.areLaidOut_cons.mp h
      have hspan := Tree.start_le_stop hu
      have hend := Tree.le_of_areLaidOut hus
      obtain ⟨hsorted, hbounds⟩ := pairwise_start_walkTree (.child above i u) rfl hu
      obtain ⟨hsorted', hbounds'⟩ := pairwise_start_walkTrees above (i := i + 1) hus
      have hfirst : (child above i u).start = u.span.start ∧ (child above i u).stop = u.span.stop :=
        ⟨rfl, rfl⟩
      rw [walkTrees]
      refine ⟨List.pairwise_append.mpr ⟨hsorted, hsorted', fun a ha b hb => ?_⟩, fun m hm => ?_⟩
      · exact Nat.le_trans (hbounds a ha).2 (hbounds' b hb).1
      · rcases List.mem_append.mp hm with hm | hm
        · have := hbounds m hm
          omega
        · have := hbounds' m hm
          omega

end

/-- **A walk over a laid out tree** comes to places in the order of their starts. -/
theorem PlaceOf.pairwise_start_walk (ht : t.isLaidOut = true) (h : n.PlaceOf t) :
    n.walk.Pairwise fun a b => a.start ≤ b.start :=
  (pairwise_start_walkTree n rfl (h.isLaidOut ht)).1

end ProbeWeaver.Node
