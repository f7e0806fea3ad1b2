import ProbeWeaver.Proofs.Typing.Elements

/-!
# Proofs/Typing/Spelling — spellings that may stand before a star

A type is spelled around its declarator.  For a name behind pointers all of the spelling stands in
front, so that a star behind it spells a pointer to the type; the spelling of any other type closes
with a parenthesis or a bracket, inside of which the star belongs.

* `CType.spellsPointers_iff` — which spellings declare a pointer with stars behind them.
-/

namespace ProbeWeaver

variable {t : CType} {inner : String}

/-- The characters of a text that are no blanks. -/
def Text.ink (s : String) : List Char := s.toList.filter (· != ' ')

@[simp] theorem Text.ink_append (a b : String) : ink (a ++ b) = ink a ++ ink b := by
  rw [ink, String.toList_append, List.filter_append, ink, ink]

@[simp] theorem Text.ink_blank : ink " " = [] := rfl

@[simp] theorem Text.ink_empty : ink "" = [] := rfl

namespace CType

open Text (ink)

/-- **A name behind pointers**: the one kind of type whose spelling is all in front. -/
def isPointerChain : CType → Bool
  | .named _ _ => true
  | .pointer pointee _ => pointee.isPointerChain
  | .array _ _ | .function _ _ => false

/-- A pointer to a pointer, and so on, to a type. -/
def pointersTo (t : CType) : Nat → CType
  | 0 => t
  | n + 1 => pointerTo (t.pointersTo n)

/-- **Stars behind the spelling** of a type spell pointers to it, up to blanks. -/
def SpellsPointers (t : CType) (stars : Nat) : Prop :=
  ink (t.render ++ String.ofList (List.replicate stars '*')) = ink (t.pointersTo stars).render

instance (t : CType) (stars : Nat) : Decidable (t.SpellsPointers stars) :=
  inferInstanceAs (Decidable (_ = _))

theorem isPointerChain_unqualified (t : CType) :
    t.unqualified.isPointerChain = t.isPointerChain := by
  cases t <;> rfl

theorem isPointerChain_pointersTo (t : CType) : ∀ n,
    (t.pointersTo n).isPointerChain = t.isPointerChain
  | 0 => rfl
  | n + 1 => isPointerChain_pointersTo t n

theorem bindsTighter_eq_false_of_isPointerChain (h : t.isPointerChain = true) :
    t.bindsTighter = false := by
  cases t with
  | named | pointer => rfl
  | array | function => contradiction

theorem ink_starDeclarator (q : Qualifiers) (inner : String) :
    ink (starDeclarator q inner) = ink (starDeclarator q "") ++ ink inner := by
  have hblank (b : Bool) : ink (if b then "" else " ") = [] := by cases b <;> rfl
  simp only [starDeclarator, Text.ink_append, hblank, Text.ink_empty, List.append_nil]

/-- **All in front**: a name behind pointers is spelled before its declarator. -/
theorem ink_spellAround : ∀ {t : CType}, t.isPointerChain = true → ∀ inner : String,
    ink (t.spellAround inner) = ink t.render ++ ink inner
  | .named name q, _, inner => by
      have hspell (inner : String) :
          ink ((named name q).spellAround inner) = ink (q.leading ++ name) ++ ink inner := by
        rw [spellAround, Text.ink_append]
        split
        · next h => rw [String.isEmpty_iff.mp h]
        · rw [Text.ink_append " ", Text.ink_blank, List.nil_append]
      rw [render, hspell, hspell, Text.ink_empty, List.append_nil]
  | .pointer pointee q, h, inner => by
      have hchain : pointee.isPointerChain = true := h
      have hspell (inner : String) : ink ((pointer pointee q).spellAround inner) =
          ink pointee.render ++ (ink (starDeclarator q "") ++ ink inner) := by
        rw [spellAround, starAround, bindsTighter_eq_false_of_isPointerChain hchain,
          if_neg Bool.false_ne_true, ink_spellAround hchain, ink_starDeclarator]
      rw [render, hspell, hspell, Text.ink_empty, List.append_nil, List.append_assoc]

/-- A text that ends with a parenthesis or a bracket. -/
def Closes (s : String) : Prop :=
  ∃ front last, s.toList = front ++ [last] ∧ (last = ')' ∨ last = ']')

theorem Closes.append {s : String} (a : String) (h : Closes s) : Closes (a ++ s) := by
  obtain ⟨front, last, hs, hlast⟩ := h
  exact ⟨a.toList ++ front, last, by rw [String.toList_append, hs, List.append_assoc], hlast⟩

theorem closes_parenthesis : Closes ")" := ⟨[], ')', rfl, .inl rfl⟩

theorem closes_bracket : Closes "]" := ⟨[], ']', rfl, .inr rfl⟩

/-- A declarator that closes keeps doing so inside of a type. -/
theorem Closes.spellAround : ∀ (t : CType) {inner : String}, Closes inner →
    Closes (t.spellAround inner)
  | .named name q, inner, h => by
      have hne : inner.isEmpty = false := by
        rw [Bool.eq_false_iff, Ne, String.isEmpty_iff]
        rintro rfl
        obtain ⟨front, last, hempty, -⟩ := h
        exact absurd (congrArg List.length hempty) (by simp)
      rw [CType.spellAround, hne, if_neg Bool.false_ne_true]
      exact (h.append _).append _
  | .pointer pointee q, inner, h => by
      rw [CType.spellAround, starAround]
      refine Closes.spellAround pointee ?_
      split
      · exact closes_parenthesis.append _
      · exact h.append _
  | .array element size, inner, _ => by
      rw [CType.spellAround]
      exact Closes.spellAround element (closes_bracket.append _)
  | .function result params, inner, _ => by
      rw [CType.spellAround]
      exact Closes.spellAround result (closes_parenthesis.append _)

/-- **The spelling of any other type closes**, whatever its declarator. -/
theorem closes_spellAround : ∀ {t : CType}, t.isPointerChain = false → ∀ inner : String,
    Closes (t.spellAround inner)
  | .named _ _, h, _ => nomatch h
  | .pointer pointee _, h, _ => by
      rw [spellAround]
      exact closes_spellAround (t := pointee) h _
  | .array element _, _, _ => by
      rw [spellAround]
      exact Closes.spellAround element (closes_bracket.append _)
  | .function result _, _, _ => by
      rw [spellAround]
      exact Closes.spellAround result (closes_parenthesis.append _)

/-- Pointers to a name behind pointers: each adds a star behind. -/
theorem ink_render_pointersTo (h : t.isPointerChain = true) : ∀ stars,
    ink (t.pointersTo stars).render = ink t.render ++ List.replicate stars '*'
  | 0 => (List.append_nil _).symm
  | n + 1 => by
      have hchain : (t.pointersTo n).isPointerChain = true :=
        (isPointerChain_pointersTo t n).trans h
      have hstar : starAround (t.pointersTo n) .none "" = "*" := by
        rw [starAround, bindsTighter_eq_false_of_isPointerChain hchain, if_neg Bool.false_ne_true]
        rfl
      rw [pointersTo, render, pointerTo, spellAround, hstar, ink_spellAround hchain,
        ink_render_pointersTo h n, List.append_assoc, List.replicate_succ']
      rfl

/-- **What stars spell**: pointers to a type exactly when it is a name behind pointers. -/
theorem spellsPointers_iff {stars : Nat} (hstars : 0 < stars) :
    t.SpellsPointers stars ↔ t.isPointerChain = true := by
  have hink : ink (String.ofList (List.replicate stars '*')) = List.replicate stars '*' := by
    rw [ink, String.toList_ofList, List.filter_replicate, if_pos (by decide)]
  rw [SpellsPointers, Text.ink_append, hink]
  constructor
  · intro h
    by_contra hchain
    rw [Bool.not_eq_true] at hchain
    obtain ⟨n, rfl⟩ := Nat.exists_eq_add_of_lt hstars
    obtain ⟨front, last, hlast, hcloses⟩ := closes_spellAround
      ((isPointerChain_pointersTo t (0 + n + 1)).trans hchain) ""
    have hclosed : ink (t.pointersTo (0 + n + 1)).render = front.filter (· != ' ') ++ [last] := by
      rw [ink, render, hlast, List.filter_append,
        List.filter_cons_of_pos (by rcases hcloses with rfl | rfl <;> decide), List.filter_nil]
    -- the one text ends with a star, the other one closes
    rw [List.replicate_succ', ← List.append_assoc, hclosed] at h
    obtain rfl := List.singleton_inj.mp (List.append_inj_right' h rfl)
    exact absurd hcloses (by decide)
  · exact fun h => (ink_render_pointersTo h stars).symm

end CType

end ProbeWeaver
