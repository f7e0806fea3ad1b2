import Mathlib.Data.List.Infix
import ProbeWeaver.Text.Search

/-!
# Proofs/Text/Parts — the parts of a text between separators

`splitChars` cuts at every separator, so a part holds none, and a stretch without one is a part as
soon as a separator follows it.

* `splitChars_append` — a stretch cut off in front of a separator.
* `infix_of_mem_splitChars` — every part is a stretch of the characters without a separator.
-/

namespace ProbeWeaver.Text

variable {sep : Char} {cs p : List Char}

theorem splitChars_ne_nil (sep : Char) : ∀ cs : List Char, splitChars sep cs ≠ []
  | [] => List.cons_ne_nil _ _
  | c :: cs => by
      rw [splitChars]
      split
      · split <;> exact List.cons_ne_nil _ _
      · exact List.cons_ne_nil _ _

/-- **A stretch without a separator** is cut off in front of one. -/
theorem splitChars_append : ∀ {p : List Char}, sep ∉ p →
    splitChars sep (p ++ sep :: cs) = p :: splitChars sep cs
  | [], _ => by
      obtain ⟨part, parts, hparts⟩ := List.exists_cons_of_ne_nil (splitChars_ne_nil sep cs)
      rw [List.nil_append, splitChars, hparts]
      exact if_pos rfl
  | c :: p, h => by
      rw [List.mem_cons, not_or] at h
      rw [List.cons_append, splitChars, splitChars_append h.2]
      exact if_neg (Ne.symm h.1)

/-- The first part starts the characters. -/
theorem prefix_of_splitChars : ∀ {cs p : List Char} {ps : List (List Char)},
    splitChars sep cs = p :: ps → p <+: cs
  | [], p, ps, h => by
      rw [← (List.cons.inj h).1]
  | c :: cs, p, ps, h => by
      obtain ⟨part, parts, hparts⟩ := List.exists_cons_of_ne_nil (splitChars_ne_nil sep cs)
      rw [splitChars, hparts] at h
      dsimp only at h
      split at h
      · rw [← (List.cons.inj h).1]
        exact List.nil_prefix
      · rw [← (List.cons.inj h).1]
        exact List.cons_prefix_cons.mpr ⟨rfl, prefix_of_splitChars hparts⟩

/-- **Every part** is a stretch of the characters, and holds no separator. -/
theorem infix_of_mem_splitChars : ∀ {cs p : List Char}, p ∈ splitChars sep cs →
    p <:+: cs ∧ sep ∉ p
  | [], p, h => by
      rw [List.mem_singleton.mp h]
      exact ⟨List.infix_rfl, List.not_mem_nil⟩
  | c :: cs, p, h => by
      obtain ⟨part, parts, hparts⟩ := List.exists_cons_of_ne_nil (splitChars_ne_nil sep cs)
      have hmem {q : List Char} (hq : q ∈ part :: parts) : q <:+: c :: cs ∧ sep ∉ q := by
        obtain ⟨hsub, hsep⟩ := infix_of_mem_splitChars (hparts ▸ hq)
        exact ⟨hsub.trans (List.suffix_cons c cs).isInfix, hsep⟩
      rw [splitChars, hparts] at h
      dsimp only at h
      split at h
      · rcases List.mem_cons.mp h with rfl | h
        · exact ⟨List.nil_infix, List.not_mem_nil⟩
        · exact hmem h
      · next hne =>
        rcases List.mem_cons.mp h with rfl | h
        · refine ⟨(List.cons_prefix_cons.mpr ⟨rfl, prefix_of_splitChars hparts⟩).isInfix, ?_⟩
          rw [List.mem_cons, not_or]
          exact ⟨Ne.symm hne, (hmem List.mem_cons_self).2⟩
        · exact hmem (List.mem_cons_of_mem part h)

end ProbeWeaver.Text
