import Mathlib.Data.List.Forall2
import ProbeWeaver.Proofs.Text.Occurrences

/-!
# Proofs/Text/Tails — what follows a needle, in texts that may end with its start

A text may end with the first character of a needle, as a line break ends one line and starts the
next.  No needle goes on from it if the next text does not start with the second character
(`Fresh`).  `Followed needle s tails` says where the needle stands in a text: once for each of the
tails, in order, with the tail behind it; so joined texts hold the needle where the parts do
(`Followed.append`, `followed_join`).
-/

namespace ProbeWeaver.Text

variable {needle s t q tail : String} {tails more : List String} {c d : Char}
  {cs : List Char}

/-! ## How texts start -/

/-- **The text starts with one of the characters**, if with any. -/
def StartsAmong (cs : List Char) (s : String) : Prop := ∀ c ∈ s.toList.head?, c ∈ cs

instance (cs : List Char) (s : String) : Decidable (StartsAmong cs s) :=
  decidable_of_iff (s.toList.head?.all cs.contains = true) (by simp [StartsAmong, Option.all_eq_true])

theorem startsAmong_append (hs : StartsAmong cs s) (ht : StartsAmong cs t) :
    StartsAmong cs (s ++ t) := by
  rw [StartsAmong, String.toList_append, List.head?_append]
  cases h : s.toList.head? with
  | none => exact ht
  | some c =>
    rw [StartsAmong, h] at hs
    exact hs

/-- What a text starts with, a longer one does. -/
theorem startsAmong_of_start (hs : StartsAmong cs s) (hne : s.toList ≠ []) :
    StartsAmong cs (s ++ t) := by
  rwa [StartsAmong, String.toList_append, List.head?_append_of_ne_nil _ hne]

theorem startsAmong_join : ∀ {l : List String}, (∀ s ∈ l, StartsAmong cs s) →
    StartsAmong cs (String.join l)
  | [], _ => fun _ h => nomatch h
  | s :: l, h => by
      rw [String.join_cons]
      exact startsAmong_append (h s List.mem_cons_self) (startsAmong_join fun t ht =>
        h t (List.mem_cons_of_mem s ht))

/-! ## Fresh texts -/

/-- **The text does not start with the second character** of the needle. -/
def Fresh (needle s : String) : Prop :=
  s.toList.head? = none ∨ s.toList.head? ≠ needle.toList.tail.head?

instance (needle s : String) : Decidable (Fresh needle s) := inferInstanceAs (Decidable (_ ∨ _))

theorem fresh_empty (needle : String) : Fresh needle "" := .inl rfl

theorem fresh_append (hs : Fresh needle s) (ht : Fresh needle t) : Fresh needle (s ++ t) := by
  rw [Fresh, String.toList_append, List.head?_append]
  cases h : s.toList.head? with
  | none => exact ht
  | some c =>
    rw [Fresh, h] at hs
    exact .inr (hs.resolve_left (Option.some_ne_none c))

/-- Among other characters than the second one. -/
theorem StartsAmong.fresh (h : StartsAmong cs s)
    (hcs : needle.toList.tail.head?.any cs.contains = false) : Fresh needle s := by
  rw [Fresh]
  cases hhead : s.toList.head? with
  | none => exact .inl rfl
  | some c =>
    refine .inr fun hsecond => ?_
    rw [← hsecond, Option.any_some, List.contains_iff_mem.mpr (h c hhead)] at hcs
    contradiction

theorem fresh_join : ∀ {l : List String}, (∀ s ∈ l, Fresh needle s) →
    Fresh needle (String.join l)
  | [], _ => fresh_empty needle
  | s :: l, h => by
      rw [String.join_cons]
      exact fresh_append (h s List.mem_cons_self) (fresh_join fun t ht =>
        h t (List.mem_cons_of_mem s ht))

/-! ## Tails of a needle -/

/-- **The tails of a needle in a text**: it stands there once for each of them, in order, with the tail
behind it, and goes over the end of the text into no fresh one. -/
structure Followed (needle s : String) (tails : List String) : Prop where
  severs : ∀ y, Fresh needle y →
    rests needle (s ++ y) = (rests needle s).map (· ++ y.toList) ++ rests needle y
  starts : List.Forall₂ (fun rest tail => tail.toList <+: rest) (rests needle s) tails

theorem followed_of_quiet (h : Quiet needle s) : Followed needle s [] where
  severs := fun y _ => h.separable y
  starts := by
    rw [h.rests_eq_nil]
    exact .nil

theorem Followed.append (hs : Followed needle s tails) (ht : Followed needle t more)
    (hfresh : Fresh needle t) : Followed needle (s ++ t) (tails ++ more) where
  severs := fun y hy => by
    rw [String.append_assoc, hs.severs _ (fresh_append hfresh hy), ht.severs y hy,
      hs.severs t hfresh, List.map_append, List.map_map, List.append_assoc]
    simp only [String.toList_append, Function.comp_def, List.append_assoc]
  starts := by
    rw [hs.severs t hfresh]
    refine List.rel_append (List.forall₂_map_left_iff.mpr ?_) ht.starts
    exact hs.starts.imp fun rest tail h => h.trans (List.prefix_append rest t.toList)

/-- A part without the needle in front changes nothing. -/
theorem Followed.quiet_append (hs : Quiet needle s) (ht : Followed needle t tails) :
    Followed needle (s ++ t) tails where
  severs := fun y hy => by
    rw [String.append_assoc, hs.rests_append, ht.severs y hy, hs.rests_append]
  starts := by
    rw [hs.rests_append]
    exact ht.starts

/-- **The needle with its tail** in front. -/
theorem Followed.needle_append (hneedle : needle.toList ≠ []) (h : Followed needle t tails)
    (htail : tail.toList <+: t.toList) : Followed needle (needle ++ t) (tail :: tails) where
  severs := fun y hy => by
    rw [String.append_assoc, rests_needle_append hneedle, rests_needle_append hneedle, h.severs y hy,
      String.toList_append]
    rfl
  starts := by
    rw [rests_needle_append hneedle]
    exact .cons htail h.starts

theorem followed_join {α : Type} {text : α → String} {tails : α → List String} : ∀ {l : List α},
    (∀ a ∈ l, Followed needle (text a) (tails a) ∧ Fresh needle (text a)) →
      Followed needle (String.join (l.map text)) (l.flatMap tails)
  | [], _ => followed_of_quiet ⟨fun _ => True.intro⟩
  | a :: l, h => by
      have hrest : ∀ b ∈ l, Followed needle (text b) (tails b) ∧ Fresh needle (text b) :=
        fun b hb => h b (List.mem_cons_of_mem a hb)
      rw [List.map_cons, String.join_cons, List.flatMap_cons]
      refine (h a List.mem_cons_self).1.append (followed_join hrest) (fresh_join fun s hs => ?_)
      obtain ⟨b, hb, rfl⟩ := List.mem_map.mp hs
      exact (hrest b hb).2

/-- What follows the needle is a tail of it. -/
theorem Followed.self (h : Followed needle s tails) :
    Followed needle s ((rests needle s).map String.ofList) where
  severs := h.severs
  starts := List.forall₂_map_right_iff.mpr <| List.forall₂_same.mpr fun rest _ => by
    rw [String.toList_ofList]

/-- **Joined texts** hold the needle as often as they do. -/
theorem length_rests_join {l : List String}
    (h : ∀ s ∈ l, Fresh needle s ∧ ∃ tails, Followed needle s tails) :
    (rests needle (String.join l)).length = (l.flatMap (rests needle)).length := by
  have hparts : ∀ s ∈ l, Followed needle (id s) ((rests needle s).map String.ofList) ∧
      Fresh needle (id s) := fun s hs => by
    obtain ⟨hfresh, tails, htails⟩ := h s hs
    exact ⟨htails.self, hfresh⟩
  have hjoin := followed_join hparts
  rw [List.map_id, ← List.map_flatMap] at hjoin
  rw [hjoin.starts.length_eq, List.length_map]

/-- **A foreign text in front of the first character** of the needle, which the needle does not go on
with. -/
theorem followed_append_start {rest : List Char} (hneedle : needle.toList = c :: d :: rest)
    (hc : c ∉ d :: rest) (hq : contains q needle = false) :
    Followed needle (q ++ String.singleton c) [] := by
  have hsilent (y : String) (hy : Fresh needle y) :
      Silent needle.toList (q ++ String.singleton c).toList y.toList := by
    rw [String.toList_append, String.toList_singleton, silent_append]
    refine ⟨silent_of_cutsOff (cutsOff_iff.mpr fun b hb hne => ?_) hq, fun hprefix => ?_, True.intro⟩
    · rw [hneedle, List.tail_cons] at hb
      obtain ⟨x, b, rfl⟩ := List.exists_cons_of_ne_nil hne
      have hx : x ≠ c := by
        rintro rfl
        exact hc (hb.mem List.mem_cons_self)
      exact ⟨fun h => hx (List.cons_prefix_cons.mp h).1,
        fun h => hx (List.cons_prefix_cons.mp h).1.symm⟩
    · rw [hneedle] at hprefix
      obtain ⟨more, hmore⟩ := (List.cons_prefix_cons.mp hprefix).2
      have hhead : y.toList.head? = some d := by
        rw [List.nil_append] at hmore
        rw [← hmore]
        rfl
      rw [Fresh, hhead, hneedle] at hy
      exact hy.elim (Option.some_ne_none d) fun hne => hne rfl
  have hrests (y : String) (hy : Fresh needle y) :
      rests needle (q ++ String.singleton c ++ y) = rests needle y := by
    rw [rests, String.toList_append, restsAfter_append_of_silent (hsilent y hy), rests]
  have hnone : rests needle (q ++ String.singleton c) = [] := by
    have hempty := hrests "" (fresh_empty needle)
    rwa [String.append_empty] at hempty
  refine ⟨fun y hy => ?_, ?_⟩
  · rw [hrests y hy, hnone]
    rfl
  · rw [hnone]
    exact .nil

end ProbeWeaver.Text
