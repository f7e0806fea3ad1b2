import ProbeWeaver.Proofs.Passes.Arrays
import ProbeWeaver.Proofs.Tree.Order

/-!
# Proofs/Typing/OwnParameters — the parameters of the function being defined

A function that returns a pointer to a function has two lists of parameters in its declarator, and
its own is the one next to the name.  The search for a parameter takes the first list next to a name
or to parentheses; `IsPlain.parameterList?_eq_own` says when that is the function's own.
-/

namespace ProbeWeaver

open Node (PlaceOf)

namespace Declarator

variable {t : Tree} {n l inner : Node}

/-! ## Levels -/

/-- The declarator inside another one. -/
def inside? (n : Node) : Option Node :=
  if n.kind = .parenthesizedDeclarator ∨ n.kind = .attributedDeclarator then
    n.namedChildren.find? (declaringKinds.contains ·.kind)
  else n.field? .declarator

theorem inside?_mem_children {n inner : Node} (h : inside? n = some inner) :
    inner ∈ n.children := by
  rw [inside?] at h
  split at h
  · exact (List.mem_filter.mp (List.mem_of_find?_eq_some h)).1
  · exact List.mem_of_find?_eq_some h

/-- **The levels of a declarator**, from the outside in. -/
def levels (n : Node) : List Node :=
  n :: match (inside? n).attach with
    | some ⟨inner, _⟩ => levels inner
    | none => []
termination_by n.size
decreasing_by
  rename_i h
  exact Node.size_lt_of_mem_children (inside?_mem_children h)

/-- A level around nothing but the name, parentheses and attributes apart. -/
def isNextToName (n : Node) : Bool :=
  ((levels n).tail.find? fun l =>
    l.kind != .parenthesizedDeclarator && l.kind != .attributedDeclarator).any
      (·.kind == .identifier)

/-- **The level that makes the declared name a function.** -/
def isOwn (n : Node) : Bool := n.kind == .functionDeclarator && isNextToName n

/-- **The parameters of the function that a declarator declares.** -/
def ownParameters? (n : Node) : Option Node := ((levels n).find? isOwn).bind (·.field? .parameters)

theorem levels_eq (n : Node) : levels n = n :: (inside? n).elim [] levels := by
  rw [levels]
  split
  · next inner hinner _ => rw [hinner, Option.elim_some]
  · next hnone => rw [Option.attach_eq_none_iff.mp hnone, Option.elim_none]

theorem self_mem_levels (n : Node) : n ∈ levels n := by
  rw [levels_eq]
  exact List.mem_cons_self

theorem mem_levels_of_inside? (hinner : inside? n = some inner) (hl : l ∈ levels inner) :
    l ∈ levels n := by
  rw [levels_eq, hinner]
  exact List.mem_cons_of_mem n hl

theorem exists_inside?_of_mem_levels (hl : l ∈ levels n) :
    l = n ∨ ∃ inner, inside? n = some inner ∧ l ∈ levels inner := by
  rw [levels_eq] at hl
  refine (List.mem_cons.mp hl).imp_right fun hl => ?_
  cases hinner : inside? n with
  | none =>
    rw [hinner] at hl
    exact absurd hl List.not_mem_nil
  | some inner =>
    rw [hinner] at hl
    exact ⟨inner, rfl, hl⟩

/-- The levels of a declarator are within it. -/
theorem within_of_mem_levels {n : Node} (hn : n.PlaceOf t) (hl : l ∈ levels n) :
    l.PlaceOf t ∧ l.isWithin n = true := by
  rcases exists_inside?_of_mem_levels hl with rfl | ⟨inner, hinner, hl⟩
  · exact ⟨hn, Node.isWithin_self l⟩
  · have hchild := inside?_mem_children hinner
    obtain ⟨hplace, hwithin⟩ := within_of_mem_levels (hn.of_mem_children hchild) hl
    exact ⟨hplace, Node.isWithin_trans hwithin (Node.isWithin_of_mem_children hchild)⟩
termination_by n.size
decreasing_by exact Node.size_lt_of_mem_children hchild

theorem mem_levels_trans {n m : Node} (hl : l ∈ levels n) (hm : m ∈ levels l) : m ∈ levels n := by
  rcases exists_inside?_of_mem_levels hl with rfl | ⟨inner, hinner, hl⟩
  · exact hm
  · exact mem_levels_of_inside? hinner (mem_levels_trans hl hm)
termination_by n.size
decreasing_by exact Node.size_lt_of_mem_children (inside?_mem_children hinner)

/-! ## The list that the search takes -/

/-- Where the search looks for the declarator inside another one. -/
def step? (n : Node) : Option Node :=
  if n.kind = .parenthesizedDeclarator then n.firstNamed? else n.field? .declarator

/-- The level whose parameters the search takes: the first one next to a name or to parentheses. -/
def isTaken (n : Node) : Bool :=
  n.kind == .functionDeclarator && (step? n).any fun inner =>
    inner.kind == .identifier || inner.kind == .parenthesizedDeclarator

/-- **No attributes around the name**, and in parentheses the declarator comes first. -/
def IsPlain (n : Node) : Prop :=
  ∀ l ∈ levels n, l.kind ≠ .attributedDeclarator ∧
    (l.kind = .parenthesizedDeclarator → ∀ inner ∈ l.firstNamed?, inner.kind ∈ declaringKinds)

instance (n : Node) : Decidable (IsPlain n) :=
  inferInstanceAs (Decidable (∀ l ∈ levels n, _))

/-- In a plain declarator the search goes from level to level. -/
theorem IsPlain.step?_eq (h : IsPlain n) (hl : l ∈ levels n) : step? l = inside? l := by
  obtain ⟨hattributed, hfirst⟩ := h l hl
  rw [step?, inside?]
  by_cases hkind : l.kind = .parenthesizedDeclarator
  · rw [if_pos hkind, if_pos (.inl hkind), Node.firstNamed?]
    have hfirst := hfirst hkind
    rw [Node.firstNamed?] at hfirst
    cases hnamed : l.namedChildren with
    | nil => rfl
    | cons c rest =>
      rw [hnamed] at hfirst
      exact (List.find?_cons_of_pos (p := fun inner : Node => declaringKinds.contains inner.kind)
        (List.contains_iff_mem.mpr (hfirst c rfl))).symm
  · rw [if_neg hkind, if_neg (not_or.mpr ⟨hkind, hattributed⟩)]

/-- One step of the search. -/
theorem parameterList?_eq_step (n : Node) : parameterList? n =
    if isTaken n then n.field? .parameters else (step? n).bind parameterList? := by
  have hbind {β : Type} {o : Option Node} {g : Node → Option β} :
      (o.attach.bind fun x => g x.1) = o.bind g := by
    cases o <;> rfl
  rw [parameterList?, isTaken, step?]
  split
  · next hkind =>
    have hparens : ¬ Kind.functionDeclarator = .parenthesizedDeclarator := by decide
    rw [hkind, if_neg hparens, beq_self_eq_true, Bool.true_and]
    refine (hbind (g := fun inner => if inner.kind = .identifier ∨
      inner.kind = .parenthesizedDeclarator then n.field? .parameters
        else parameterList? inner)).trans ?_
    cases n.field? .declarator with
    | none => rfl
    | some inner =>
      rw [Option.bind_some, Option.bind_some, Option.any_some]
      simp only [Bool.or_eq_true, beq_iff_eq]
  · next hkind =>
    rw [hkind, if_pos rfl]
    exact hbind
  · next hnot hkind =>
    rw [if_neg hkind, beq_eq_false_iff_ne.mpr hnot]
    exact hbind

/-- **In a plain declarator** the search takes the parameters of the first level that it may. -/
theorem parameterList?_eq {n : Node} (h : IsPlain n) :
    parameterList? n = ((levels n).find? isTaken).bind (·.field? .parameters) := by
  rw [parameterList?_eq_step, h.step?_eq (self_mem_levels n), levels_eq, List.find?_cons]
  cases isTaken n with
  | true => rfl
  | false =>
    cases hinner : inside? n with
    | none => rfl
    | some inner =>
      exact parameterList?_eq fun l hl => h l (mem_levels_of_inside? hinner hl)
termination_by n.size
decreasing_by exact Node.size_lt_of_mem_children (inside?_mem_children hinner)

/-- The function's own level is one that the search may take. -/
theorem IsPlain.isTaken_of_isOwn (h : IsPlain n) (hl : l ∈ levels n) (hown : isOwn l = true) :
    isTaken l = true := by
  obtain ⟨hkind, hnext⟩ := Bool.and_eq_true_iff.mp hown
  rw [isTaken, hkind, Bool.true_and, h.step?_eq hl]
  rw [isNextToName, levels_eq, List.tail_cons] at hnext
  cases hinner : inside? l with
  | none =>
    rw [hinner] at hnext
    exact absurd hnext (by decide)
  | some inner =>
    have hlevel := mem_levels_of_inside? hinner (self_mem_levels inner)
    have hattributed := (h inner (mem_levels_trans hl hlevel)).1
    rw [hinner, Option.elim_some, levels_eq, List.find?_cons] at hnext
    rw [Option.any_some]
    by_cases hparens : inner.kind = .parenthesizedDeclarator
    · rw [hparens]
      rfl
    · rw [bne_iff_ne.mpr hparens, bne_iff_ne.mpr hattributed] at hnext
      exact Bool.or_eq_true_iff.mpr (.inl hnext)

/-- **In a plain declarator** whose levels next to parentheses are its own, the search takes the
function's own parameters. -/
theorem IsPlain.parameterList?_eq_own (h : IsPlain n)
    (hown : ∀ l ∈ levels n, isTaken l = true → isOwn l = true) :
    parameterList? n = ownParameters? n := by
  rw [parameterList?_eq h, ownParameters?]
  rw [← List.head?_filter, ← List.head?_filter, List.filter_congr fun l hl =>
    Bool.eq_iff_iff.mpr ⟨hown l hl, h.isTaken_of_isOwn hl⟩]

end Declarator

end ProbeWeaver
