import ProbeWeaver.Proofs.Tree.Controls
import ProbeWeaver.Proofs.Tree.Layout

/-!
# Proofs/Tree/Headers — controlled statements right behind the header of their construct

The header of an `if`, an `else`, a loop or a label ends in a token: a bracket, `else`, `do` or a
colon.  Such a token is no controlled statement and ends none, so a controlled statement that stands
right behind it starts where no other one ends (`Node.Controls.stop_ne_start`).

* `Node.Controls.eq_of_controls` — a statement is controlled by one construct.
* `Node.mem_unblocked_iff` — the controlled statements of a tree that are no blocks, listed.
-/

namespace ProbeWeaver

/-! ## The end of a header -/

namespace Tree

/-- A token that fills no field. -/
def isBareToken (t : Tree) : Bool :=
  !t.kind.isNamed && t.field.isNone && t.children.isEmpty && decide (t.span.start < t.span.stop)

/-- **The end of a header**: a token, or a condition with its closing bracket. -/
def endsHeader (t : Tree) : Bool :=
  t.isBareToken || (t.field == some .condition && t.children.getLast?.any isBareToken)

end Tree

namespace Node

/-- **The statement stands right behind a header**, and it is not empty. -/
def followsHeader : Node → Bool
  | .child p (i + 1) u =>
    decide (u.span.start < u.span.stop) && (p.tree.children[i]?).any Tree.endsHeader
  | _ => false

variable {t u v : Tree} {c d m n p : Node} {i : Nat}

/-! ## Where a controlled statement hangs -/

/-- A controlled statement hangs below its construct, or below the clause of its `else`. -/
theorem Controls.parent?_cases (h : n.Controls c) : c.parent? = some n ∨
    ∃ p : Node, c.parent? = some p ∧ p.parent? = some n ∧ p.kind = .elseClause ∧
      p.firstNamed? = some c := by
  cases h with
  | thenBranch _ hc | loopBody _ hc =>
    exact .inl (parent?_of_mem_children
      (List.mem_filter.mp (List.mem_filter.mp (List.mem_of_head? hc)).1).1)
  | elseBranch _ _ hc =>
    obtain ⟨a, ha, ⟨hclause, hc⟩ | ⟨-, rfl⟩⟩ := elseBranch?_cases hc
    · exact .inr ⟨a, parent?_of_mem_children (List.mem_filter.mp (List.mem_of_head? hc)).1,
        parent?_of_mem_children (List.mem_of_find?_eq_some ha), hclause, hc⟩
    · exact .inl (parent?_of_mem_children (List.mem_of_find?_eq_some ha))
  | labelled _ hc =>
    exact .inl (parent?_of_mem_children (List.mem_filter.mp (List.mem_of_find?_eq_some hc)).1)

/-- The clause of an `else` controls nothing itself. -/
theorem Controls.kind_ne_elseClause (h : n.Controls c) : n.kind ≠ .elseClause := fun hkind => by
  have hmem := h.kind_mem
  rw [hkind] at hmem
  contradiction

/-- **A statement is controlled by one construct.** -/
theorem Controls.eq_of_controls (h : n.Controls c) (h' : m.Controls c) : n = m := by
  rcases h.parent?_cases with hn | ⟨p, hp, hn, hclause, -⟩ <;>
    rcases h'.parent?_cases with hm | ⟨q, hq, hm, hclause', -⟩
  · exact Option.some.inj (hn.symm.trans hm)
  · obtain rfl := Option.some.inj (hn.symm.trans hq)
    exact absurd hclause' h.kind_ne_elseClause
  · obtain rfl := Option.some.inj (hp.symm.trans hm)
    exact absurd hclause h'.kind_ne_elseClause
  · obtain rfl := Option.some.inj (hp.symm.trans hq)
    exact Option.some.inj (hn.symm.trans hm)

/-- In the clause of an `else`, the first construct is controlled and nothing else. -/
theorem Controls.firstNamed?_of_elseClause (h : n.Controls c) (hp : c.parent? = some p)
    (hclause : p.kind = .elseClause) : p.firstNamed? = some c := by
  rcases h.eq_or_firstNamed? hp with rfl | ⟨-, hfirst⟩
  · exact absurd hclause h.kind_ne_elseClause
  · exact hfirst

/-! ## Controlled statements, listed -/

/-- What the construct controls. -/
def controlled (n : Node) : List Node :=
  match n.kind with
  | .ifStatement => (n.namedFillers .consequence).head?.toList ++
      if (n.namedFillers .alternative).isEmpty then [] else n.elseBranch?.toList
  | .forStatement | .whileStatement | .doStatement => (n.namedFillers .body).head?.toList
  | .caseStatement => n.labelled?.toList
  | _ => []

theorem mem_controlled_iff : c ∈ n.controlled ↔ n.Controls c := by
  constructor
  · intro hc
    rw [controlled] at hc
    split at hc
    case h_1 hkind =>
      rw [List.mem_append, Option.mem_toList] at hc
      rcases hc with hc | hc
      · exact .thenBranch hkind hc
      · split at hc
        · exact absurd hc List.not_mem_nil
        · next hotherwise =>
          exact .elseBranch hkind (fun hnil => hotherwise (List.isEmpty_iff.mpr hnil))
            (Option.mem_toList.mp hc)
    case h_2 hkind | h_3 hkind | h_4 hkind =>
      exact .loopBody (by rw [hkind]; decide) (Option.mem_toList.mp hc)
    case h_5 hkind => exact .labelled hkind (Option.mem_toList.mp hc)
    case h_6 => exact absurd hc List.not_mem_nil
  · rintro (⟨hkind, hc⟩ | ⟨hkind, hotherwise, hc⟩ | ⟨hkind, hc⟩ | ⟨hkind, hc⟩)
    · rw [controlled, hkind]
      exact List.mem_append_left _ (Option.mem_toList.mpr hc)
    · rw [controlled, hkind]
      refine List.mem_append_right _ ?_
      rw [if_neg fun hnil => hotherwise (List.isEmpty_iff.mp hnil)]
      exact Option.mem_toList.mpr hc
    · rw [controlled]
      simp only [List.mem_cons, List.not_mem_nil, or_false] at hkind
      rcases hkind with hkind | hkind | hkind <;> rw [hkind] <;> exact Option.mem_toList.mpr hc
    · rw [controlled, hkind]
      exact Option.mem_toList.mpr hc

/-- **The statements without a block**, construct by construct. -/
def unblocked (t : Tree) : List Node :=
  ((root t).walk.filter (·.isSpelledInFile)).flatMap fun n =>
    n.controlled.filter (·.kind != .compoundStatement)

theorem mem_unblocked_iff : c ∈ unblocked t ↔ Unblocked t Controls c := by
  simp only [unblocked, Unblocked, List.mem_flatMap, List.mem_filter, mem_controlled_iff,
    bne_iff_ne, ne_eq]
  constructor
  · rintro ⟨n, ⟨hn, hspelled⟩, hcontrols, hkind⟩
    exact ⟨hkind, n, (placeOf_root t).of_mem_walk hn, hspelled, hcontrols⟩
  · rintro ⟨hkind, n, hn, hspelled, hcontrols⟩
    exact ⟨n, ⟨hn.mem_walk, hspelled⟩, hcontrols, hkind⟩

/-! ## Tokens and conditions -/

/-- A token that fills no field is not controlled. -/
theorem Controls.not_isBareToken (h : n.Controls c) : c.tree.isBareToken = false := by
  rw [Bool.eq_false_iff]
  intro htoken
  simp only [Tree.isBareToken, Bool.and_eq_true, Bool.not_eq_true', Option.isNone_iff_eq_none]
    at htoken
  obtain ⟨⟨⟨hnamed, hfield⟩, -⟩, -⟩ := htoken
  rcases h.isNamed_or with hc | hc
  · exact Bool.false_ne_true (hnamed.symm.trans hc)
  · rw [hfield] at hc
    contradiction

/-- What fills the field of a condition is controlled only in the place of the statement beside it. -/
theorem Controls.eq_of_condition (h : n.Controls d) (hfield : d.tree.field = some .condition)
    (h' : m.Controls c) (hd : d.parent? = some p) (hc : c.parent? = some p) : d = c := by
  have hfiller {f : Field} (hf : (n.namedFillers f).head? = some d) : f = .condition := by
    have hfills := (List.mem_filter.mp (List.mem_filter.mp (List.mem_of_head? hf)).1).2
    rw [hfield] at hfills
    exact (Option.some.inj (beq_iff_eq.mp hfills)).symm
  cases h with
  | thenBranch _ hf => exact nomatch hfiller hf
  | loopBody _ hf => exact nomatch hfiller hf
  | elseBranch _ _ hbranch =>
    obtain ⟨a, ha, ⟨hclause, hfirst⟩ | ⟨-, rfl⟩⟩ := elseBranch?_cases hbranch
    · have hparent := parent?_of_mem_children (List.mem_filter.mp (List.mem_of_head? hfirst)).1
      obtain rfl := Option.some.inj (hparent.symm.trans hd)
      exact Option.some.inj (hfirst.symm.trans (h'.firstNamed?_of_elseClause hc hclause))
    · have hfills := List.find?_some ha
      rw [hfield] at hfills
      contradiction
  | labelled hkind hfirst =>
    have hparent := parent?_of_mem_children (List.mem_filter.mp (List.mem_of_find?_eq_some hfirst)).1
    obtain rfl := Option.some.inj (hparent.symm.trans hd)
    rcases h'.eq_or_firstNamed? hc with rfl | ⟨hclause, -⟩
    · cases h' with
      | thenBranch hkind' | elseBranch hkind' => rw [hkind] at hkind'; contradiction
      | loopBody hkind' => rw [hkind] at hkind'; contradiction
      | labelled _ hfirst' => exact Option.some.inj (hfirst.symm.trans hfirst')
    · rw [hkind] at hclause
      contradiction

/-! ## Where controlled statements end -/

theorem exists_of_followsHeader (h : c.followsHeader = true) : ∃ p i u v,
    c = .child p (i + 1) u ∧ u.span.start < u.span.stop ∧ p.tree.children[i]? = some v ∧
      v.endsHeader = true := by
  cases c with
  | root u => contradiction
  | child p i u =>
    cases i with
    | zero => contradiction
    | succ i =>
      rw [followsHeader, Bool.and_eq_true_iff, Option.any_eq_true] at h
      obtain ⟨hlt, v, hv, hends⟩ := h
      exact ⟨p, i, u, v, rfl, of_decide_eq_true hlt, hv, hends⟩

theorem start_lt_of_followsHeader (h : c.followsHeader = true) : c.start < c.stop := by
  obtain ⟨p, i, u, -, rfl, hlt, -, -⟩ := exists_of_followsHeader h
  exact hlt

/-- Nothing lies below a place without children. -/
theorem PlaceOf.eq_of_isWithin_leaf (hd : d.PlaceOf t) (hn : n.PlaceOf t)
    (hwithin : d.isWithin n = true) (hleaf : n.tree.children = []) : d = n := by
  rcases isWithin_iff_branch?.mp hwithin with heq | hsome
  · exact hd.eq_of_path_eq hn heq
  · obtain ⟨i, hi⟩ := Option.isSome_iff_exists.mp hsome
    obtain ⟨u, hu, -⟩ := hd.exists_child hi hn
    have hnone : n.tree.children[i]? = some u := hu.2
    rw [hleaf] at hnone
    contradiction

theorem children_of_isBareToken (h : v.isBareToken = true) :
    v.children = [] ∧ v.span.start < v.span.stop := by
  simp only [Tree.isBareToken, Bool.and_eq_true, List.isEmpty_iff, decide_eq_true_eq] at h
  exact ⟨h.1.2, h.2⟩

/-- The end of a header is not empty, and what starts there starts before it ends. -/
theorem PlaceOf.start_lt_of_endsHeader (ht : t.isLaidOut = true) (hn : n.PlaceOf t)
    (hends : n.tree.endsHeader = true) : n.start < n.stop := by
  rw [Tree.endsHeader, Bool.or_eq_true_iff, Bool.and_eq_true_iff, Option.any_eq_true] at hends
  rcases hends with htoken | ⟨-, w, hw, htoken⟩
  · exact (children_of_isBareToken htoken).2
  · rw [List.getLast?_eq_getElem?] at hw
    have hchild : (Node.child n _ w).PlaceOf t := ⟨hn, hw⟩
    obtain ⟨hstart, hstop⟩ := hchild.span_child ht
    have hlt := (children_of_isBareToken htoken).2
    omega

/-- **A controlled statement at the end of a header** ends before the header does. -/
theorem Controls.stop_lt_of_endsHeader (ht : t.isLaidOut = true) (hd : d.PlaceOf t)
    (h : n.Controls d) (h' : m.Controls c) (hv : (Node.child p i v).PlaceOf t)
    (hc : c.parent? = some p) (hne : c.path ≠ i :: p.path) (hends : v.endsHeader = true)
    (hwithin : d.isWithin (.child p i v) = true) : d.stop < v.span.stop := by
  rw [Tree.endsHeader, Bool.or_eq_true_iff, Bool.and_eq_true_iff, Option.any_eq_true] at hends
  rcases hends with htoken | ⟨hfield, w, hw, htoken⟩
  · obtain rfl := hd.eq_of_isWithin_leaf hv hwithin (children_of_isBareToken htoken).1
    exact absurd htoken (Bool.eq_false_iff.mp h.not_isBareToken)
  · rcases isWithin_iff_branch?.mp hwithin with heq | hsome
    · obtain rfl := hd.eq_of_path_eq hv heq
      obtain rfl := h.eq_of_condition (beq_iff_eq.mp hfield) h' rfl hc
      exact absurd heq hne
    · obtain ⟨j, hj⟩ := Option.isSome_iff_exists.mp hsome
      rw [List.getLast?_eq_getElem?] at hw
      have hlast : (Node.child (.child p i v) (v.children.length - 1) w).PlaceOf t := ⟨hv, hw⟩
      obtain ⟨hleaf, hlt⟩ := children_of_isBareToken htoken
      obtain ⟨-, hstop⟩ := hlast.span_child ht
      obtain ⟨x, hx, hdx⟩ := hd.exists_child hj hv
      have hbound : j < v.children.length := (List.getElem?_eq_some_iff.mp hx.2).1
      rcases Nat.lt_or_ge j (v.children.length - 1) with hlt' | hge
      · -- an earlier child ends before the closing bracket starts
        have hbefore : d.stop ≤ w.span.start := hd.stop_le_start_of_branch? ht hlast hv hj
          (by rw [branch?, if_pos rfl]) hlt'
        exact Nat.lt_of_le_of_lt hbefore (Nat.lt_of_lt_of_le hlt hstop)
      · obtain rfl : j = v.children.length - 1 := by omega
        obtain rfl := Option.some.inj (hx.2.symm.trans hw)
        obtain rfl := hd.eq_of_isWithin_leaf hx hdx hleaf
        exact absurd htoken (Bool.eq_false_iff.mp h.not_isBareToken)

/-- **No controlled statement ends where one starts** that stands right behind a header. -/
theorem Controls.stop_ne_start (ht : t.isLaidOut = true) (hn : n.PlaceOf t) (h : n.Controls d)
    (hm : m.PlaceOf t) (h' : m.Controls c) (hempty : d.start < d.stop)
    (hfollows : c.followsHeader = true) : d.stop ≠ c.start := by
  obtain ⟨p, i, u, v, rfl, hlt, hv, hends⟩ := exists_of_followsHeader hfollows
  have hd := h.placeOf hn
  have hc := h'.placeOf hm
  have hv : (Node.child p i v).PlaceOf t := ⟨hc.1, hv⟩
  have hbranch : branch? p (.child p i v) = some i := by rw [branch?, if_pos rfl]
  have hbranch' : branch? p (.child p (i + 1) u) = some (i + 1) := by rw [branch?, if_pos rfl]
  have hheader : v.span.stop ≤ u.span.start :=
    hv.stop_le_start_of_branch? ht hc hc.1 hbranch hbranch' (Nat.lt_succ_self i)
  have hspan : v.span.start < v.span.stop := hv.start_lt_of_endsHeader ht hends
  obtain ⟨hstart, -⟩ := hv.span_child ht
  obtain ⟨-, hstop⟩ := hc.span_child ht
  show d.stop ≠ u.span.start
  rcases hd.within_or_apart ht hc.1 with hwithin | habove | hapart | hapart
  · rcases isWithin_iff_branch?.mp hwithin with heq | hsome
    · obtain rfl := hd.eq_of_path_eq hc.1 heq
      omega
    · obtain ⟨j, hj⟩ := Option.isSome_iff_exists.mp hsome
      rcases Nat.lt_trichotomy j i with hlt' | rfl | hgt
      · have hbefore : d.stop ≤ v.span.start :=
          hd.stop_le_start_of_branch? ht hv hc.1 hj hbranch hlt'
        omega
      · have hne : (Node.child p (j + 1) u).path ≠ j :: p.path := fun heq =>
          Nat.succ_ne_self j (List.cons.inj heq).1
        have hbefore := h.stop_lt_of_endsHeader ht hd h' hv rfl hne hends
          (branch?_eq_some_iff_isWithin.mp hj)
        omega
      · rcases Nat.lt_or_ge (i + 1) j with hgt' | hle
        · have hafter : u.span.stop ≤ d.start :=
            hc.stop_le_start_of_branch? ht hd hc.1 hbranch' hj hgt'
          omega
        · obtain rfl : j = i + 1 := by omega
          obtain ⟨x, hx, hdx⟩ := hd.exists_child hj hc.1
          obtain rfl := Option.some.inj (hx.2.symm.trans hc.2)
          obtain ⟨hinside, -⟩ : x.span.start ≤ d.start ∧ d.stop ≤ x.span.stop :=
            hd.span_isWithin ht hx hdx
          omega
  · have hinside := hc.1.span_isWithin ht hd habove
    omega
  · omega
  · omega

end Node

end ProbeWeaver
