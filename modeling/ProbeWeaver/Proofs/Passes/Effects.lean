import ProbeWeaver.Proofs.Passes.Notices
import ProbeWeaver.Proofs.Text.Occurrences

/-!
# Proofs/Passes/Effects — when a probe changes the state of the program

A probe acts if an expression among its arguments holds a call, an assignment or a step.  It quotes
what it reports as it stands, so it acts whenever that does; operands alone are quoted without their
steps, and names do nothing.

* `Declarator.exists_sizes_eq` — the sizes in a printed type are the expressions in the brackets of
  its declarator, but for a count that the initializer gives.
* `Notice.exists_acts_iff` — a probe acts exactly when what its notice reports does.
-/

namespace ProbeWeaver

variable {t : Tree} {u : SourceUnit} {m : Match} {n decl : Node} {d : Declarator} {source : String}

/-! ## Steps left out -/

namespace Text

/-- A kept character is followed by another one. -/
theorem head?_eraseFrom_ne {c : Char} : ∀ {cs : List Char}, cs.head? ≠ some c →
    (eraseFrom [c, c] 0 cs).head? ≠ some c
  | [], _ => nofun
  | d :: cs, h => by
      have hne : ¬ [c, c].isPrefixOf (d :: cs) = true := fun hprefix => by
        rw [List.isPrefixOf_iff_prefix] at hprefix
        exact h (congrArg some (List.cons_prefix_cons.mp hprefix).1.symm)
      rw [eraseFrom, if_neg hne]
      exact h

/-- **A doubled character is gone** once it is erased. -/
theorem not_hasInfix_eraseFrom (c : Char) : ∀ cs : List Char,
    hasInfix [c, c] (eraseFrom [c, c] 0 cs) = false
  | [] => rfl
  | [d] => by
      have hne : [c, c].isPrefixOf [d] = false := Bool.and_false (c == d)
      rw [eraseFrom, if_neg (Bool.eq_false_iff.mp hne), eraseFrom, hasInfix_cons, hne]
      rfl
  | d :: d' :: cs => by
      by_cases hprefix : [c, c].isPrefixOf (d :: d' :: cs) = true
      · rw [eraseFrom, if_pos hprefix]
        exact not_hasInfix_eraseFrom c cs
      · rw [eraseFrom, if_neg hprefix, hasInfix_cons, not_hasInfix_eraseFrom c (d' :: cs),
          Bool.or_false, Bool.eq_false_iff, ne_eq, List.isPrefixOf_iff_prefix,
          List.cons_prefix_cons]
        -- the kept character would have to be followed by another one that is kept
        rintro ⟨rfl, rest, hrest⟩
        rw [List.isPrefixOf_iff_prefix, List.cons_prefix_cons] at hprefix
        refine head?_eraseFrom_ne (fun hd' => hprefix ⟨rfl, ?_⟩) (congrArg List.head? hrest).symm
        rw [← Option.some.inj hd']
        exact List.cons_prefix_cons.mpr ⟨rfl, List.nil_prefix⟩

theorem not_contains_eraseAll {needle : String} {c : Char} (h : needle.toList = [c, c])
    (s : String) : contains (eraseAll s needle) needle = false := by
  rw [contains, eraseAll, h, String.toList_ofList]
  exact not_hasInfix_eraseFrom c s.toList

end Text

/-! ## Expressions that act -/

namespace Node

/-- The construct holds one of the kinds, at or below it. -/
def holds (kinds : List Kind) (n : Node) : Bool := n.walk.any fun m => kinds.contains m.kind

/-- **The expression acts**: it holds a call, an assignment or a step. -/
def acts (n : Node) : Bool := n.holds [.callExpression, .assignmentExpression, .updateExpression]

/-- The expression acts even without its steps. -/
def actsStepless (n : Node) : Bool := n.holds [.callExpression, .assignmentExpression]

end Node

/-- **Names hold nothing.** -/
def SourceUnit.HasPlainNames (u : SourceUnit) : Prop :=
  ∀ n ∈ u.root.walk, n.kind ∈ Declarator.nameKinds → n.tree.children = []

instance (u : SourceUnit) : Decidable u.HasPlainNames :=
  inferInstanceAs (Decidable (∀ n ∈ u.root.walk, _))

/-- **A name does not act.** -/
theorem SourceUnit.HasPlainNames.not_acts (h : u.HasPlainNames) (hu : u.root = .root t)
    (hn : n.PlaceOf t) (hkind : n.kind ∈ Declarator.nameKinds) : n.acts = false := by
  have hleaf := h n (hu ▸ hn.mem_walk) hkind
  have hwalk : n.walk = [n] := by
    rw [Node.walk]
    cases htree : n.tree with
    | node k f s missing cs =>
      rw [htree] at hleaf
      obtain rfl : cs = [] := hleaf
      rfl
  have hnames : ∀ k ∈ Declarator.nameKinds,
      [Kind.callExpression, .assignmentExpression, .updateExpression].contains k = false := by
    decide
  rw [Node.acts, Node.holds, hwalk, List.any_cons, List.any_nil, Bool.or_false]
  exact hnames _ hkind

/-! ## The sizes in a type -/

/-- The sizes in a type, from the outside in; those of parameters are not evaluated. -/
def CType.sizes : CType → List String
  | .named _ _ => []
  | .pointer pointee _ => pointee.sizes
  | .array element size => size.toList ++ element.sizes
  | .function result _ => result.sizes

namespace Declarator

/-- The declarator inside a declarator. -/
def inner? (n : Node) : Option Node :=
  match n.kind with
  | .initDeclarator | .attributedDeclarator | .pointerDeclarator | .abstractPointerDeclarator
  | .arrayDeclarator | .abstractArrayDeclarator | .functionDeclarator
  | .abstractFunctionDeclarator => n.field? .declarator
  | .parenthesizedDeclarator | .abstractParenthesizedDeclarator => n.firstNamed?
  | _ => none

/-- The expression in the brackets of an array's declarator. -/
def size? (n : Node) : Option Node :=
  match n.kind with
  | .arrayDeclarator | .abstractArrayDeclarator => n.field? .size
  | _ => none

theorem size_lt_of_inner? {inner : Node} (h : inner? n = some inner) : inner.size < n.size := by
  rw [inner?] at h
  split at h
  all_goals first
    | exact Node.size_lt_of_field? h
    | exact Node.size_lt_of_firstNamed? h
    | contradiction

/-- **The expressions in the brackets** of a declarator, from the name outward. -/
def sizesIn (n : Node) : List Node :=
  (match (inner? n).attach with
    | some ⟨inner, _⟩ => sizesIn inner
    | none => []) ++ (size? n).toList
termination_by n.size
decreasing_by exact size_lt_of_inner? (by assumption)

/-- The type around a base type after one level of a declarator. -/
theorem exists_level (source : String) (n : Node) (base : CType) : ∃ type : CType,
    type.sizes = (size? n).toList.map (·.text source) ++ base.sizes ∧
      (peel source n base).2 = match inner? n with
        | some inner => (peel source inner type).2
        | none => type := by
  have hnone {type : CType} (h : size? n = none) (hsizes : type.sizes = base.sizes) :
      type.sizes = (size? n).toList.map (·.text source) ++ base.sizes := by
    rw [h, hsizes]
    rfl
  rw [peel]
  split
  case h_6 hkind | h_7 hkind =>
    refine ⟨.pointer base (qualifiersBelow source n), hnone (by simp only [size?, hkind]) rfl, ?_⟩
    simp only [inner?, hkind]
    split <;> simp_all
  case h_8 hkind | h_9 hkind =>
    refine ⟨.array base ((n.field? .size).map (·.text source)), ?_, ?_⟩
    · rw [CType.sizes, Option.toList_map]
      simp only [size?, hkind]
    · simp only [inner?, hkind]
      split <;> simp_all
  case h_10 hkind | h_11 hkind =>
    dsimp only
    generalize dropVoid _ = params
    refine ⟨.function base params, hnone (by simp only [size?, hkind]) rfl, ?_⟩
    simp only [inner?, hkind]
    split <;> simp_all
  case h_4 hkind | h_5 hkind | h_12 hkind | h_13 hkind =>
    refine ⟨base, hnone (by simp only [size?, hkind]) rfl, ?_⟩
    simp only [inner?, hkind]
    split <;> simp_all
  all_goals
    refine ⟨base, hnone (by simp only [size?, *]) rfl, ?_⟩
    simp only [inner?, *]

theorem sizesIn_eq (n : Node) : sizesIn n = (inner? n).elim [] sizesIn ++ (size? n).toList := by
  rw [sizesIn]
  split
  · next inner hinner _ =>
    rw [hinner]
    rfl
  · next hattach =>
    rw [Option.attach_eq_none_iff.mp hattach]
    rfl

/-- **The sizes around a base type** are the expressions in the brackets. -/
theorem sizes_peel (source : String) (n : Node) (base : CType) :
    (peel source n base).2.sizes = (sizesIn n).map (·.text source) ++ base.sizes := by
  obtain ⟨type, hsizes, hpeel⟩ := exists_level source n base
  rw [hpeel, sizesIn_eq, List.map_append, List.append_assoc, ← hsizes]
  cases hinner : inner? n with
  | none => rfl
  | some inner => exact sizes_peel source inner type
termination_by n.size
decreasing_by exact size_lt_of_inner? hinner

/-- A base type has no sizes. -/
theorem sizes_baseType (source : String) (n : Node) : (baseType source n).sizes = [] := by
  have hplain (k : Node) : ∃ name, typeOfSpecifier source k = .plain name := by
    rw [typeOfSpecifier]
    split
    case h_4 =>
      split
      · exact ⟨_, rfl⟩
      · exact ⟨_, rfl⟩
    all_goals exact ⟨_, rfl⟩
  rw [baseType]
  cases n.field? .type with
  | none => rfl
  | some k =>
    obtain ⟨name, hname⟩ := hplain k
    rw [Option.map_some, Option.getD_some, hname]
    rfl

/-- **The sizes of a declared type** are the expressions in the brackets of its declarator; in front
of them may stand the count that an initializer gives. -/
theorem exists_sizes_eq (hd : d ∈ declarators source decl) : ∃ count : Option Nat,
    d.type.sizes = (count.map toString).toList ++ (sizesIn d.node).map (·.text source) := by
  obtain ⟨n, -, hd⟩ := List.mem_filterMap.mp hd
  obtain ⟨⟨name, type⟩, hpeel, rfl⟩ := Option.map_eq_some_iff.mp hd
  have hsizes : type.sizes = (sizesIn n).map (·.text source) := by
    rw [← List.append_nil (List.map _ _), ← sizes_baseType source decl, ← sizes_peel]
    rw [peelNamed?] at hpeel
    split at hpeel
    · next hpeeled =>
      rw [hpeeled, (Prod.mk.inj (Option.some.inj hpeel)).2]
    · contradiction
  rw [← hsizes]
  show ∃ count, (sizedBy source (init? n) type).sizes = _
  rw [sizedBy.eq_def]
  split
  · exact ⟨(init? n).bind (countFromInit? source), by rw [CType.sizes, Option.map_bind]; rfl⟩
  · exact ⟨none, rfl⟩

end Declarator

/-! ## Probes that act -/

/-- **The argument acts**: an expression in it does.  An operand acts as it is spelled, without its
steps; a size acts where an expression in the brackets of its type does. -/
def Evaluated.acts (u : SourceUnit) : Evaluated → Prop
  | .value e | .address e => e.acts = true
  | .past a => a.acts u
  | .operand _ e =>
    e.actsStepless = true ∨ ∃ step ∈ ["++", "--"],
      Text.contains (Observation.operandText u e) step = true
  | .size d => ∃ s ∈ Declarator.sizesIn d.node, s.acts = true

/-- **What the notice reports acts**, so that its probe does: a pointer that is no name, the memory
that is reached, a size of the variable, or an operand; of its steps, two plus signs may be left, where
minus signs stood between them. -/
def Notice.Acts (u : SourceUnit) : Notice → Prop
  | .pointer e _ => e.kind ≠ .identifier ∧ e.acts = true
  | .object e _ | .pointee e _ => e.acts = true
  | .variable _ d => ∃ s ∈ Declarator.sizesIn d.node, s.acts = true
  | .operands _ _ _ left right => ∃ e ∈ [left, right],
      e.actsStepless = true ∨ Text.contains (Observation.operandText u e) "++" = true
  | _ => False

theorem Evaluated.acts_operand_iff (cast : String) (e : Node) : (Evaluated.operand cast e).acts u ↔
    e.actsStepless = true ∨ Text.contains (Observation.operandText u e) "++" = true := by
  have hminus : Text.contains (Observation.operandText u e) "--" = false :=
    Text.not_contains_eraseAll rfl _
  simp [Evaluated.acts, hminus]

/-- **A probe acts** exactly when what its notice reports does. -/
theorem Notice.exists_acts_iff {n : Notice} (hnames : u.HasPlainNames) (hu : u.root = .root t)
    (hm : m.root.PlaceOf t) (about : n.IsAbout u m) : (∃ a ∈ n.args, a.acts u) ↔ n.Acts u := by
  cases n with
  | pointer e type =>
    obtain ⟨rfl, -⟩ := about
    simp only [args, List.mem_singleton, exists_eq_left, Evaluated.acts, Acts]
    refine ⟨fun h => ⟨fun hkind => ?_, h⟩, And.right⟩
    have hquiet := hnames.not_acts hu hm (hkind ▸ List.mem_cons_self)
    exact Bool.noConfusion (hquiet.symm.trans h)
  | «variable» scope d =>
    obtain ⟨decl, -, hdecl, hd⟩ := SourceUnit.exists_mem_declarators hm about
    have hquiet := hnames.not_acts hu (Declarator.placeOf_name hdecl hd) (Declarator.kind_name hd)
    simp [args, Evaluated.acts, Acts, hquiet]
  | operands op leftType rightType left right =>
    simp [args, Evaluated.acts_operand_iff, Acts]
  | object e type | pointee e type => simp [args, Evaluated.acts, Acts]
  | blockStart | blockEnd | site | entry | declared | assigned | subscript | offset | condition | moved
  | freed => simp [args, Acts]

end ProbeWeaver
