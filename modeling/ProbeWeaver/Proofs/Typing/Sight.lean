import ProbeWeaver.Proofs.Tree.Places

/-!
# Proofs/Typing/Sight — one name seen from two places

Looking a name up from two places gives the same binding unless a construct around one of them, and
not around the other, binds the name.  `scopesApart` are those constructs and `bindingApart?` is
what they bind the name to.

* `NameTable.lookup_eq_iff_of_mem_ancestors` — from a place and from a construct around it.
* `NameTable.lookup_eq_iff_of_tops` — from places that only the whole file encloses together.
-/

namespace ProbeWeaver

variable {t : Tree} {n m a b below : Node} {source name : String} {names : NameTable}
  {inner outer : List Node}

namespace Node

/-! ## Places by their paths -/

theorem length_path_of_mem_ancestors : ∀ {n : Node}, a ∈ n.ancestors →
    a.path.length < n.path.length
  | .child p i u, ha => by
      rw [path, List.length_cons]
      rcases List.mem_cons.mp ha with rfl | ha
      · exact Nat.lt_succ_self _
      · exact Nat.lt_succ_of_lt (length_path_of_mem_ancestors ha)

/-- Going up makes paths shorter. -/
theorem pairwise_ancestors : ∀ n : Node,
    n.ancestors.Pairwise fun a b => b.path.length < a.path.length
  | .root _ => .nil
  | .child p _ _ => .cons (fun _ => length_path_of_mem_ancestors) (pairwise_ancestors p)

/-- **A path leads to one place.** -/
theorem PlaceOf.eq_of_sameAs : ∀ {n m : Node}, n.PlaceOf t → m.PlaceOf t → n.sameAs m = true → n = m
  | .root _, .root _, hn, hm, _ => by rw [show _ = t from hn, show _ = t from hm]
  | .root _, .child _ _ _, _, _, h => nomatch beq_iff_eq.mp h
  | .child _ _ _, .root _, _, _, h => nomatch beq_iff_eq.mp h
  | .child p i u, .child q j v, hn, hm, h => by
      obtain ⟨rfl, hpath⟩ := List.cons.inj (beq_iff_eq.mp h)
      obtain rfl := PlaceOf.eq_of_sameAs hn.1 hm.1 (beq_iff_eq.mpr hpath)
      rw [Option.some.inj (hn.2.symm.trans hm.2)]

theorem sameAs_self (n : Node) : n.sameAs n = true := beq_self_eq_true n.path

theorem ancestors_of_parent? (h : n.parent? = some a) : n.ancestors = a :: a.ancestors := by
  cases n with
  | root u => exact nomatch h
  | child p i u => rw [ancestors, Option.some.inj h]

/-- What encloses a place, cut at one of the constructs. -/
theorem exists_ancestors_eq : ∀ {n : Node}, a ∈ n.ancestors →
    ∃ inner, n.ancestors = inner ++ a :: a.ancestors
  | .child p _ _, ha => by
      rcases List.mem_cons.mp ha with rfl | ha
      · exact ⟨[], rfl⟩
      · obtain ⟨inner, hinner⟩ := exists_ancestors_eq ha
        exact ⟨p :: inner, by rw [ancestors, hinner, List.cons_append]⟩

/-- What encloses a place encloses what is inside it. -/
theorem mem_ancestors_trans (hb : b ∈ a.ancestors) (ha : a ∈ n.ancestors) : b ∈ n.ancestors := by
  obtain ⟨inner, hinner⟩ := exists_ancestors_eq ha
  rw [hinner]
  exact List.mem_append_right inner (List.mem_cons_of_mem a hb)

/-- Further in means enclosed by what is further out. -/
theorem ancestors_of_ancestors_eq : ∀ {n : Node} {inner : List Node},
    n.ancestors = inner ++ a :: outer → a.ancestors = outer
  | .root _, inner, h => by
      rw [ancestors] at h
      exact absurd h.symm (List.append_ne_nil_of_right_ne_nil inner (List.cons_ne_nil a outer))
  | .child p i u, [], h => by
      obtain ⟨rfl, rfl⟩ := List.cons.inj h
      rfl
  | .child p i u, x :: inner, h => ancestors_of_ancestors_eq (List.cons.inj h).2

mutual

theorem mem_ancestors_of_mem_descendantsTree {here : Node} : ∀ {u : Tree},
    m ∈ descendantsTree here u → here ∈ m.ancestors
  | .node _ _ _ _ _, h => mem_ancestors_of_mem_descendantsTrees h

theorem mem_ancestors_of_mem_descendantsTrees {above : Node} : ∀ {i : Nat} {us : List Tree},
    m ∈ descendantsTrees above i us → above ∈ m.ancestors
  | _, [], h => absurd h List.not_mem_nil
  | i, u :: us, h => by
      rw [descendantsTrees] at h
      rcases List.mem_append.mp h with h | h
      · split at h
        · rcases List.mem_cons.mp h with rfl | h
          · exact List.mem_cons_self
          · exact mem_ancestors_trans List.mem_cons_self (mem_ancestors_of_mem_descendantsTree h)
        · exact absurd h List.not_mem_nil
      · exact mem_ancestors_of_mem_descendantsTrees h

end

/-- **What encloses a construct** encloses the identifiers in it. -/
theorem mem_ancestors_of_mem_identifiers (hm : m ∈ n.identifiers) (ha : a ∈ n.ancestors) :
    a ∈ m.ancestors := by
  rcases List.mem_cons.mp (List.mem_filter.mp hm).1 with rfl | hm
  · exact ha
  · exact mem_ancestors_trans ha (mem_ancestors_of_mem_descendantsTree hm)

/-! ## Constructs around one place and not the other -/

/-- **The constructs around a place that are not around the other**, innermost first. -/
def scopesApart (n other : Node) : List Node :=
  n.ancestors.takeWhile fun a => !other.ancestors.any (·.sameAs a)

/-- Constructs around the other place are left out, with everything further out. -/
theorem scopesApart_eq (h : n.ancestors = inner ++ outer)
    (hinner : ∀ x ∈ inner, ∀ y ∈ m.ancestors, y.sameAs x = false)
    (houter : ∀ x ∈ outer.head?, x ∈ m.ancestors) : n.scopesApart m = inner := by
  have hpass : ∀ x ∈ inner, (!m.ancestors.any (·.sameAs x)) = true := fun x hx => by
    rw [Bool.not_eq_true', List.any_eq_false]
    exact fun y hy => Bool.eq_false_iff.mp (hinner x hx y hy)
  rw [scopesApart, h, List.takeWhile_append_of_pos hpass]
  cases outer with
  | nil => exact List.append_nil inner
  | cons x outer =>
    have hstop : (!m.ancestors.any (·.sameAs x)) = false := by
      rw [Bool.not_eq_false', List.any_eq_true]
      exact ⟨x, houter x rfl, sameAs_self x⟩
    rw [List.takeWhile_cons_of_neg (by rw [hstop]; exact Bool.false_ne_true), List.append_nil]

/-- From a construct around a place, the constructs apart reach out to it. -/
theorem scopesApart_of_ancestors_eq (h : n.ancestors = inner ++ a :: a.ancestors) :
    n.scopesApart a = inner ++ [a] := by
  have hsplit : n.ancestors = (inner ++ [a]) ++ a.ancestors := by
    rw [h, List.append_assoc, List.singleton_append]
  have hdeeper := pairwise_ancestors n
  rw [hsplit, List.pairwise_append] at hdeeper
  refine scopesApart_eq hsplit (fun x hx y hy => ?_) fun x => List.mem_of_head?
  refine Bool.eq_false_iff.mpr fun hsame => ?_
  have hlt := hdeeper.2.2 x hx y hy
  rw [beq_iff_eq.mp hsame] at hlt
  exact Nat.lt_irrefl _ hlt

/-- Of two places that only the root encloses together, all but the root stands apart. -/
theorem PlaceOf.scopesApart_eq (hn : n.PlaceOf t) (hm : m.PlaceOf t)
    (hinner : n.ancestors = inner ++ [.root t]) (htop : .root t ∈ m.ancestors)
    (hapart : ∀ x ∈ inner, x ∉ m.ancestors) : n.scopesApart m = inner := by
  refine Node.scopesApart_eq hinner (fun x hx y hy => ?_) fun x hx => ?_
  · refine Bool.eq_false_iff.mpr fun hsame => hapart x hx ?_
    have hxn : x ∈ n.ancestors := by rw [hinner]; exact List.mem_append_left _ hx
    rwa [← (hm.of_mem_ancestors hy).eq_of_sameAs (hn.of_mem_ancestors hxn) hsame]
  · rwa [← Option.some.inj hx]

/-- Around a construct there is nothing that is not around what it encloses. -/
theorem scopesApart_of_mem_ancestors (h : a ∈ n.ancestors) : a.scopesApart n = [] := by
  obtain ⟨inner, hinner⟩ := exists_ancestors_eq h
  refine scopesApart_eq rfl (fun x hx => absurd hx List.not_mem_nil) fun x hx => ?_
  rw [hinner]
  exact List.mem_append_right inner (List.mem_cons_of_mem a (List.mem_of_head? hx))

end Node

namespace NameTable

/-- **What the constructs around a place, but not around the other, bind a name to.** -/
def bindingApart? (source name : String) (place other : Node) : Option NameMeaning :=
  localBinding? source name place (place.scopesApart other)

/-- A search outward in two parts. -/
theorem localBinding?_append : ∀ {inner : List Node} {below : Node},
    localBinding? source name below (inner ++ outer) =
      match localBinding? source name below inner with
      | some binding => some binding
      | none => localBinding? source name (inner.getLastD below) outer
  | [], _ => rfl
  | scope :: inner, below => by
      rw [List.cons_append, localBinding?, localBinding?, List.getLastD_cons]
      cases scopeBinding? source name scope below with
      | some binding => rfl
      | none => exact localBinding?_append

/-- **Two lookups agree** when what stands apart says so: both go on to the same binding, unless a
construct around one of the places alone binds the name. -/
theorem lookup_eq_iff_of_apart (common : Option NameMeaning)
    (hn : names.lookup source name n =
      match bindingApart? source name n m with
      | some binding => some binding
      | none => common)
    (hm : names.lookup source name m =
      match bindingApart? source name m n with
      | some binding => some binding
      | none => common) :
    names.lookup source name n = names.lookup source name m ↔
      (∀ b, bindingApart? source name n m = some b → names.lookup source name m = some b) ∧
        ∀ b, bindingApart? source name m n = some b → names.lookup source name n = some b := by
  rw [hn, hm]
  cases bindingApart? source name n m with
  | some b => cases bindingApart? source name m n <;> simp [eq_comm]
  | none => cases bindingApart? source name m n <;> simp

/-- **From a place and from a construct around it** a name means the same exactly when what stands
between them, the construct itself included, leaves the name alone or binds it alike. -/
theorem lookup_eq_iff_of_mem_ancestors (h : a ∈ n.ancestors) :
    names.lookup source name n = names.lookup source name a ↔
      (∀ b, bindingApart? source name n a = some b → names.lookup source name a = some b) ∧
        ∀ b, bindingApart? source name a n = some b → names.lookup source name n = some b := by
  obtain ⟨inner, hinner⟩ := Node.exists_ancestors_eq h
  refine lookup_eq_iff_of_apart (names.lookup source name a) ?_ ?_
  · rw [bindingApart?, Node.scopesApart_of_ancestors_eq hinner, lookup, hinner,
      ← List.singleton_append, ← List.append_assoc, localBinding?_append, List.getLastD_concat]
    cases localBinding? source name n (inner ++ [a]) with
    | some b => rfl
    | none => rfl
  · rw [bindingApart?, Node.scopesApart_of_mem_ancestors h]
    rfl

/-- The root of a file binds no name. -/
theorem lookup_eq_of_ancestors_eq (ht : t.kind = .sourceUnit)
    (hn : n.ancestors = inner ++ [.root t]) :
    names.lookup source name n =
      match localBinding? source name n inner with
      | some binding => some binding
      | none => names.fileBinding? name := by
  have hroot : localBinding? source name (inner.getLastD n) [.root t] = none := by
    rw [localBinding?, scopeBinding?, show (Node.root t).kind = .sourceUnit from ht]
    rfl
  rw [lookup, hn, localBinding?_append, hroot]
  cases localBinding? source name n inner <;> rfl

/-- **From two places that only the whole file encloses together** a name means the same exactly
when what is around each of them leaves the name alone or binds it alike. -/
theorem lookup_eq_iff_of_tops {inner' : List Node} (ht : t.kind = .sourceUnit) (hn : n.PlaceOf t)
    (hm : m.PlaceOf t) (hinner : n.ancestors = inner ++ [.root t])
    (hinner' : m.ancestors = inner' ++ [.root t]) (hapart : ∀ x ∈ inner, x ∉ m.ancestors) :
    names.lookup source name n = names.lookup source name m ↔
      (∀ b, bindingApart? source name n m = some b → names.lookup source name m = some b) ∧
        ∀ b, bindingApart? source name m n = some b → names.lookup source name n = some b := by
  have hroot : ∀ x ∈ inner', x ≠ .root t := by
    rintro x hx rfl
    have hdeeper := Node.pairwise_ancestors m
    rw [hinner', List.pairwise_append] at hdeeper
    exact Nat.lt_irrefl _ (hdeeper.2.2 _ hx _ (List.mem_singleton_self _))
  have hapart' : ∀ x ∈ inner', x ∉ n.ancestors := by
    intro x hx hxn
    rw [hinner] at hxn
    rcases List.mem_append.mp hxn with hxn | hxn
    · exact hapart x hxn (by rw [hinner']; exact List.mem_append_left _ hx)
    · exact hroot x hx (List.mem_singleton.mp hxn)
  have htop {k : Node} {outer : List Node} (h : k.ancestors = outer ++ [.root t]) :
      .root t ∈ k.ancestors := by
    rw [h]
    exact List.mem_append_right outer (List.mem_singleton_self _)
  refine lookup_eq_iff_of_apart (names.fileBinding? name) ?_ ?_
  · rw [bindingApart?, hn.scopesApart_eq hm hinner (htop hinner') hapart,
      lookup_eq_of_ancestors_eq ht hinner]
  · rw [bindingApart?, hm.scopesApart_eq hn hinner' (htop hinner) hapart',
      lookup_eq_of_ancestors_eq ht hinner']

end NameTable

end ProbeWeaver
