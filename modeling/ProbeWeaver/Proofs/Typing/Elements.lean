import ProbeWeaver.Proofs.Text.Occurrences
import ProbeWeaver.Proofs.Typing.Resolution

/-!
# Proofs/Typing/Elements — what arrays are made of

Below its dimensions an array holds items of one type, which may be a type name, and what that stands
for may be an array again: `NameTable.ConsistsOf` goes all the way down.  The spelling of an array
shows its innermost element as it was declared, and nothing that a type name hides.

* `ConsistsOf.unique`, `ConsistsOf.eq_innermost` — one type of items; it is the innermost element,
  unless that is a type name.
* `CType.spellsConst_of_innermost`, `CType.contains_render_of_innermost` — what the spelling shows.
-/

namespace ProbeWeaver

variable {names : NameTable} {t x y element : CType} {name inner : String} {q : Qualifiers}

/-! ## Items -/

namespace NameTable

/-- **The items of an array**, below all its dimensions and with type names expanded at every level;
of another type, that type with its names expanded. -/
inductive ConsistsOf (names : NameTable) : CType → CType → Prop where
  | item {t : CType} (h : names.IsSettled t) (hitem : t.isArray = false) : ConsistsOf names t t
  | array {element x : CType} {size : Option String} (rest : ConsistsOf names element x) :
      ConsistsOf names (.array element size) x
  | link {name : String} {q : Qualifiers} {target x : CType} (h : names.target? name = some target)
      (rest : ConsistsOf names (target.qualified q) x) : ConsistsOf names (.named name q) x

/-- **Items are of one type.** -/
theorem ConsistsOf.unique (hx : names.ConsistsOf t x) (hy : names.ConsistsOf t y) : x = y := by
  induction hx with
  | item h hitem =>
    cases hy with
    | item => rfl
    | array => contradiction
    | link h' => exact nomatch (isSettled_named_iff.mp h).symm.trans h'
  | array _ ih =>
    cases hy with
    | item _ hitem => contradiction
    | array rest => exact ih rest
  | link h _ ih =>
    cases hy with
    | item h' => exact nomatch (isSettled_named_iff.mp h').symm.trans h
    | link h' rest =>
      obtain rfl := Option.some.inj (h.symm.trans h')
      exact ih rest

/-- **An element that is no type name** is what the array consists of. -/
theorem ConsistsOf.eq_innermost (h : names.ConsistsOf t x) (hs : names.IsSettled t.innermost) :
    x = t.innermost := by
  induction h with
  | @item t _ hitem =>
    cases t with
    | array => contradiction
    | named | pointer | function => rfl
  | array _ ih => exact ih hs
  | link h => exact nomatch (isSettled_named_iff.mp hs).symm.trans h

end NameTable

/-! ## The spelling of an array -/

theorem Text.contains_iff {s needle : String} :
    contains s needle = true ↔ needle.toList <:+: s.toList :=
  hasInfix_iff

namespace CType

/-- A type is spelled around its declarator. -/
theorem isInfix_spellAround : ∀ (t : CType) (inner : String),
    inner.toList <:+: (t.spellAround inner).toList
  | .named name q, inner => by
      rw [spellAround, String.toList_append]
      refine .trans ?_ (List.suffix_append _ _).isInfix
      split
      · next h => rw [String.isEmpty_iff.mp h]
      · rw [String.toList_append]
        exact (List.suffix_append _ _).isInfix
  | .pointer pointee q, inner => by
      rw [spellAround]
      refine .trans ?_ (isInfix_spellAround pointee _)
      have hstar : inner.toList <:+: (starDeclarator q inner).toList := by
        rw [starDeclarator, String.toList_append]
        exact (List.suffix_append _ _).isInfix
      rw [starAround]
      split
      · simp only [String.toList_append, List.append_assoc]
        exact hstar.trans (List.infix_append' _ _ _)
      · exact hstar
  | .array element size, inner => by
      rw [spellAround]
      refine .trans ?_ (isInfix_spellAround element _)
      simp only [String.toList_append, List.append_assoc]
      exact (List.prefix_append _ _).isInfix
  | .function result params, inner => by
      rw [spellAround]
      refine .trans ?_ (isInfix_spellAround result _)
      simp only [String.toList_append, List.append_assoc]
      exact (List.prefix_append _ _).isInfix

/-- An array is spelled by its innermost element around a longer declarator. -/
theorem exists_spellAround_eq : ∀ (t : CType) (inner : String),
    ∃ outer, t.spellAround inner = t.innermost.spellAround outer
  | .named _ _, inner | .pointer _ _, inner | .function _ _, inner => ⟨inner, rfl⟩
  | .array element size, inner => by
      rw [spellAround, innermost]
      exact exists_spellAround_eq element _

/-- Below all dimensions there is no array. -/
theorem isArray_innermost : ∀ t : CType, t.innermost.isArray = false
  | .named _ _ | .pointer _ _ | .function _ _ => rfl
  | .array element _ => by
      rw [innermost]
      exact isArray_innermost element

/-- **A constant element shows** in the spelling. -/
theorem spellsConst_of_innermost (h : t.innermost.qualifiers.isConst = true) :
    t.spellsConst = true := by
  obtain ⟨outer, houter⟩ := exists_spellAround_eq t ""
  rw [spellsConst, Text.contains_iff, render, houter]
  have harray := isArray_innermost t
  cases ht : t.innermost with
  | named name q =>
    have hconst : q.isConst = true := by rwa [ht] at h
    rw [spellAround, Qualifiers.leading, if_pos hconst]
    simp only [String.toList_append, List.append_assoc]
    exact .trans (List.prefix_append "const".toList " ".toList).isInfix
      (List.prefix_append _ _).isInfix
  | pointer pointee q =>
    have hconst : q.isConst = true := by rwa [ht] at h
    rw [spellAround]
    refine .trans ?_ (isInfix_spellAround pointee _)
    have hstar : "const".toList <:+: (starDeclarator q outer).toList := by
      obtain ⟨isConst, isVolatile⟩ := q
      obtain rfl : isConst = true := hconst
      have htrailing : "const".toList <:+: (Qualifiers.trailing ⟨true, isVolatile⟩).toList := by
        cases isVolatile <;> exact (List.prefix_append "const".toList _).isInfix
      rw [starDeclarator]
      simp only [String.toList_append, List.append_assoc]
      exact htrailing.trans (List.infix_append' _ _ _)
    rw [starAround]
    split
    · simp only [String.toList_append, List.append_assoc]
      exact hstar.trans (List.infix_append' _ _ _)
    · exact hstar
  | array => rw [ht] at harray; contradiction
  | function => exact nomatch ht ▸ h

/-- **The name of the element shows** in the spelling. -/
theorem contains_render_of_innermost {needle : String} (hname : t.innermost.name? = some name)
    (h : Text.contains name needle = true) : Text.contains t.render needle = true := by
  obtain ⟨outer, houter⟩ := exists_spellAround_eq t ""
  obtain ⟨q, hq⟩ : ∃ q, t.innermost = .named name q := exists_named_of_name? hname
  rw [Text.contains_iff] at h ⊢
  rw [render, houter, hq, spellAround]
  simp only [String.toList_append, List.append_assoc]
  exact h.trans (List.infix_append' _ _ _)

end CType

end ProbeWeaver
