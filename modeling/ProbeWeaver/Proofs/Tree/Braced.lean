import ProbeWeaver.Proofs.Text.Slice
import ProbeWeaver.Proofs.Tree.Headers

/-!
# Proofs/Tree/Braced — what lies about a block

A block starts with its opening brace and ends with its closing one (`Node.hasBraces`).  The braces
are tokens, so whatever else is in the block lies strictly between its ends, and a statement or
another block is either there, around the block, or apart from it (`Node.BlocksClear.position`,
`Node.BlocksClear.blockPosition`).
-/

namespace ProbeWeaver

open Text

namespace Node

variable {t u v : Tree} {source : String} {b n : Node}

/-- **The block has its braces**: its first and its last child are tokens spelled so, at its ends. -/
def hasBraces (source : String) (b : Node) : Bool :=
  b.children.head?.any (fun o =>
      o.tree.isBareToken && o.start == b.start && o.text source == "\x7b") &&
    b.children.getLast?.any fun o =>
      o.tree.isBareToken && o.stop == b.stop && o.text source == "\x7d"

/-- **The braces of a block**, as its children. -/
structure BraceTokens (source : String) (t : Tree) (b : Node) (u v : Tree) (i : Nat) : Prop where
  first : (child b 0 u).PlaceOf t
  last : (child b (i + 1) v).PlaceOf t
  count : b.tree.children.length = i + 2
  firstToken : u.isBareToken = true
  lastToken : v.isBareToken = true
  firstStart : u.span.start = b.start
  lastStop : v.span.stop = b.stop
  firstText : slice source u.span.start u.span.stop = "\x7b"
  lastText : slice source v.span.start v.span.stop = "\x7d"

theorem exists_braceTokens (h : b.hasBraces source = true) (hb : b.PlaceOf t) :
    ∃ u v i, BraceTokens source t b u v i := by
  rw [hasBraces, Bool.and_eq_true_iff, Option.any_eq_true, Option.any_eq_true] at h
  obtain ⟨⟨o, ho, hfirst⟩, c, hc, hlast⟩ := h
  simp only [Bool.and_eq_true_iff, beq_iff_eq] at hfirst hlast
  rw [children, List.head?_eq_getElem?, List.getElem?_mapIdx, Option.map_eq_some_iff] at ho
  rw [children, List.getLast?_eq_getElem?, List.length_mapIdx, List.getElem?_mapIdx,
    Option.map_eq_some_iff] at hc
  obtain ⟨u, hu, rfl⟩ := ho
  obtain ⟨v, hv, rfl⟩ := hc
  obtain ⟨⟨hutoken, hustart⟩, hutext⟩ := hfirst
  obtain ⟨⟨hvtoken, hvstop⟩, hvtext⟩ := hlast
  have hbound := (List.getElem?_eq_some_iff.mp hv).1
  cases hcount : b.tree.children.length with
  | zero => omega
  | succ k =>
    rw [hcount, Nat.add_sub_cancel] at hv
    cases k with
    | zero =>
      -- one token is not spelled in two ways
      obtain rfl := Option.some.inj (hu.symm.trans hv)
      exact absurd (hutext.symm.trans hvtext) (by decide)
    | succ i =>
      exact ⟨u, v, i, ⟨hb, hu⟩, ⟨hb, hv⟩, hcount, hutoken, hvtoken, hustart, hvstop, hutext, hvtext⟩

namespace BraceTokens

variable {i : Nat} (h : BraceTokens source t b u v i)

include h

/-- The closing brace stands behind the opening one. -/
theorem stop_le_start (ht : t.isLaidOut = true) : u.span.stop ≤ v.span.start :=
  h.first.stop_le_start_of_branch? ht h.last h.first.1 (by rw [branch?, if_pos rfl])
    (by rw [branch?, if_pos rfl]) (Nat.succ_pos i)

theorem start_lt_stop : b.start < u.span.stop ∧ v.span.start < b.stop := by
  have hfirst := (children_of_isBareToken h.firstToken).2
  have hlast := (children_of_isBareToken h.lastToken).2
  rw [h.firstStart] at hfirst
  rw [h.lastStop] at hlast
  exact ⟨hfirst, hlast⟩

/-- **What else is in the block** lies between its braces. -/
theorem between (ht : t.isLaidOut = true) (hn : n.PlaceOf t) (hwithin : n.isWithin b = true)
    (hne : n ≠ b) (hbare : n.tree.isBareToken = false) : u.span.stop ≤ n.start ∧ n.stop ≤ v.span.start := by
  have hb := h.first.1
  rcases isWithin_iff_branch?.mp hwithin with heq | hsome
  · exact absurd (hn.eq_of_path_eq hb heq) hne
  · obtain ⟨j, hj⟩ := Option.isSome_iff_exists.mp hsome
    obtain ⟨w, hw, hwithin⟩ := hn.exists_child hj hb
    have hleaf {x : Tree} (hx : (child b j x).PlaceOf t) (htoken : x.isBareToken = true) : False := by
      obtain rfl := Option.some.inj (hw.2.symm.trans hx.2)
      obtain rfl := hn.eq_of_isWithin_leaf hw hwithin (children_of_isBareToken htoken).1
      exact absurd htoken (Bool.eq_false_iff.mp hbare)
    have hbound : j < i + 2 := h.count ▸ (List.getElem?_eq_some_iff.mp hw.2).1
    have hfirst : j ≠ 0 := by
      rintro rfl
      exact hleaf h.first h.firstToken
    have hlast : j ≠ i + 1 := by
      rintro rfl
      exact hleaf h.last h.lastToken
    exact ⟨h.first.stop_le_start_of_branch? ht hn hb (by rw [branch?, if_pos rfl]) hj (by omega),
      hn.stop_le_start_of_branch? ht h.last hb hj (by rw [branch?, if_pos rfl]) (by omega)⟩

end BraceTokens

theorem not_isBareToken_of_isNamed (h : n.isNamed = true) : n.tree.isBareToken = false := by
  rw [Tree.isBareToken, show n.tree.kind.isNamed = true from h]
  rfl

/-- **The blocks of a tree stand clear**: they have their braces, and a statement without a block is
not empty and starts at no end of one. -/
structure BlocksClear (source : String) (t : Tree) : Prop where
  laidOut : t.isLaidOut = true
  braced : ∀ b : Node, b.PlaceOf t → b.kind = .compoundStatement → b.hasBraces source = true
  nonempty : ∀ c : Node, Unblocked t Controls c → c.start < c.stop
  clear : ∀ c b : Node, Unblocked t Controls c → b.PlaceOf t → b.kind = .compoundStatement →
    c.start ≠ b.start ∧ c.start ≠ b.stop

/-- Blocks that stand clear, checked on the tree. -/
theorem blocksClear_of_walk (ht : t.isLaidOut = true)
    (hblocks : ∀ b ∈ (root t).walk, b.kind = .compoundStatement → b.hasBraces source = true)
    (hstatements : ∀ c ∈ unblocked t, c.start < c.stop ∧ ∀ b ∈ (root t).walk,
      b.kind = .compoundStatement → c.start ≠ b.start ∧ c.start ≠ b.stop) :
    BlocksClear source t where
  laidOut := ht
  braced b hb := hblocks b hb.mem_walk
  nonempty c hc := (hstatements c (mem_unblocked_iff.mpr hc)).1
  clear c b hc hb := (hstatements c (mem_unblocked_iff.mpr hc)).2 b hb.mem_walk

namespace BlocksClear

variable {a c : Node} (h : BlocksClear source t)

include h

/-- A block is not empty. -/
theorem start_lt_stop (hb : b.PlaceOf t) (hkind : b.kind = .compoundStatement) :
    b.start < b.stop := by
  obtain ⟨u, v, i, hbraces⟩ := exists_braceTokens (h.braced b hb hkind) hb
  have hbetween := hbraces.stop_le_start h.laidOut
  have hends := hbraces.start_lt_stop
  omega

/-- What else is in a block lies strictly between its ends. -/
theorem inside (hb : b.PlaceOf t) (hkind : b.kind = .compoundStatement) (hn : n.PlaceOf t)
    (hwithin : n.isWithin b = true) (hne : n ≠ b) (hbare : n.tree.isBareToken = false) :
    b.start < n.start ∧ n.stop < b.stop := by
  obtain ⟨u, v, i, hbraces⟩ := exists_braceTokens (h.braced b hb hkind) hb
  have hbetween := hbraces.between h.laidOut hn hwithin hne hbare
  have hends := hbraces.start_lt_stop
  omega

/-- **A statement without a block and a block**: the statement is in the block, around it, before it
or behind it. -/
theorem position (hc : Unblocked t Controls c) (hb : b.PlaceOf t)
    (hkind : b.kind = .compoundStatement) :
    (b.start < c.start ∧ c.stop < b.stop) ∨ (c.start < b.start ∧ b.stop ≤ c.stop) ∨
      c.stop ≤ b.start ∨ b.stop < c.start := by
  obtain ⟨hstart, hstop⟩ := h.clear c b hc hb hkind
  obtain ⟨hblock, n, hn, -, hcontrols⟩ := hc
  have hplace := hcontrols.placeOf hn
  rcases hb.within_or_apart h.laidOut hplace with hwithin | hwithin | hapart | hapart
  · have hspan := hb.span_isWithin h.laidOut hplace hwithin
    omega
  · have hne : c ≠ b := fun heq => hblock (heq ▸ hkind)
    exact .inl (h.inside hb hkind hplace hwithin hne hcontrols.not_isBareToken)
  · exact .inr (.inr (.inl hapart))
  · omega

/-- **Two blocks** are one in the other, or apart. -/
theorem blockPosition (ha : a.PlaceOf t) (hakind : a.kind = .compoundStatement) (hb : b.PlaceOf t)
    (hbkind : b.kind = .compoundStatement) (hne : a ≠ b) :
    (a.isWithin b = true ∧ b.start < a.start ∧ a.stop < b.stop) ∨
      (b.isWithin a = true ∧ a.start < b.start ∧ b.stop < a.stop) ∨
        (a.isWithin b = false ∧ b.isWithin a = false ∧ (a.stop ≤ b.start ∨ b.stop ≤ a.start)) := by
  have hbare {n : Node} (hn : n.kind = .compoundStatement) : n.tree.isBareToken = false :=
    not_isBareToken_of_isNamed (by rw [isNamed, hn]; rfl)
  have hlt := h.start_lt_stop ha hakind
  have hlt' := h.start_lt_stop hb hbkind
  cases hab : a.isWithin b with
  | true => exact .inl ⟨rfl, h.inside hb hbkind ha hab hne (hbare hakind)⟩
  | false =>
    cases hba : b.isWithin a with
    | true => exact .inr (.inl ⟨rfl, h.inside ha hakind hb hba hne.symm (hbare hbkind)⟩)
    | false =>
      rcases hb.within_or_apart h.laidOut ha with hwithin | hwithin | hapart | hapart
      · rw [hba] at hwithin
        contradiction
      · rw [hab] at hwithin
        contradiction
      · exact .inr (.inr ⟨rfl, rfl, .inl hapart⟩)
      · exact .inr (.inr ⟨rfl, rfl, .inr hapart⟩)

end BlocksClear

end Node

end ProbeWeaver
