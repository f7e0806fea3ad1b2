import Mathlib.Data.List.Forall2

/-!
# Proofs/Outcome — steps that may fail, and lists of what they come to

A sequence of steps succeeds exactly when each of its steps does.  What is made element by element
of a list keeps its order.
-/

namespace ProbeWeaver

variable {α β ε : Type}

/-- **Two steps in a row succeed** exactly when both do. -/
theorem bind_eq_ok_iff {x : Except ε α} {f : α → Except ε β} {b : β} :
    (x >>= f) = .ok b ↔ ∃ a, x = .ok a ∧ f a = .ok b := by
  cases x with
  | error fault => exact ⟨nofun, fun ⟨_, h, _⟩ => nomatch h⟩
  | ok a => exact ⟨fun h => ⟨a, rfl, h⟩, fun ⟨a', ha, h⟩ => by cases ha; exact h⟩

theorem eq_ok_of_toOption {ε α : Type} {x : Except ε α} {a : α} (h : x.toOption = some a) :
    x = .ok a := by
  cases x with
  | ok b => rw [Option.some.inj h]
  | error => contradiction

/-! ## Element by element -/

/-- Each element on the right of a pairwise relation has its partner. -/
theorem exists_of_forall₂_of_mem {α β : Type} {R : α → β → Prop} {b : β} {xs : List α}
    {ys : List β} (h : List.Forall₂ R xs ys) (hb : b ∈ ys) : ∃ a ∈ xs, R a b := by
  induction h with
  | nil => exact absurd hb List.not_mem_nil
  | @cons x y xs ys hxy _ ih =>
    rcases List.mem_cons.mp hb with rfl | hb
    · exact ⟨x, List.mem_cons_self, hxy⟩
    · obtain ⟨a, ha, hab⟩ := ih hb
      exact ⟨a, List.mem_cons_of_mem x ha, hab⟩

/-- Each element has a partner exactly if there is a list of partners. -/
theorem exists_forall₂_iff {α β : Type} {R : α → β → Prop} : ∀ {xs : List α},
    (∃ ys, List.Forall₂ R xs ys) ↔ ∀ a ∈ xs, ∃ b, R a b
  | [] => iff_of_true ⟨[], .nil⟩ fun _ h => absurd h List.not_mem_nil
  | a :: xs => by
      rw [List.forall_mem_cons, ← exists_forall₂_iff]
      constructor
      · rintro ⟨_, h⟩
        cases h with
        | cons hab hrest => exact ⟨⟨_, hab⟩, _, hrest⟩
      · rintro ⟨⟨b, hab⟩, ys, hrest⟩
        exact ⟨b :: ys, .cons hab hrest⟩

/-- Partners for all elements, in one list. -/
theorem exists_pairs_of_forall {α β : Type} {R : α → β → Prop} : ∀ {xs : List α},
    (∀ a ∈ xs, ∃ b, R a b) → ∃ ps : List (α × β), ps.map Prod.fst = xs ∧ ∀ p ∈ ps, R p.1 p.2
  | [], _ => ⟨[], rfl, fun p hp => absurd hp List.not_mem_nil⟩
  | a :: xs, h => by
      obtain ⟨b, hb⟩ := h a List.mem_cons_self
      obtain ⟨ps, rfl, hps⟩ := exists_pairs_of_forall fun x hx => h x (List.mem_cons_of_mem a hx)
      exact ⟨(a, b) :: ps, rfl, List.forall_mem_cons.mpr ⟨hb, hps⟩⟩

/-- **A relation between elements in order** carries over. -/
theorem pairwise_of_forall₂ {α β : Type} {R : α → β → Prop} {S : α → α → Prop} {Q : β → β → Prop}
    (himp : ∀ a a' b b', S a a' → R a b → R a' b' → Q b b') : ∀ {l : List α} {l' : List β},
      List.Forall₂ R l l' → l.Pairwise S → l'.Pairwise Q
  | _, _, .nil, _ => .nil
  | a :: l, b :: l', .cons hab hrest, hpairs => by
      obtain ⟨hfirst, hpairs⟩ := List.pairwise_cons.mp hpairs
      refine List.pairwise_cons.mpr ⟨fun b' hb' => ?_, pairwise_of_forall₂ himp hrest hpairs⟩
      obtain ⟨a', ha', hR⟩ := exists_of_forall₂_of_mem hrest hb'
      exact himp a a' b b' (hfirst a' ha') hab hR

end ProbeWeaver
