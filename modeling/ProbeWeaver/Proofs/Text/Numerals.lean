import Mathlib.Data.List.Forall2
import ProbeWeaver.Proofs.Text.Occurrences
import ProbeWeaver.Text.Number

/-!
# Proofs/Text/Numerals — numbers behind a stem, read back

A text may hold a stem with a number behind it and a character that ends the number.  `Numbered`
says which numbers stand in a text in that way, in order, and that none goes over the end of the
text, unless what follows starts with a blank; so the numbers of joined texts are those of the parts
(`Numbered.append`, `numbered_join`).

* `unsigned?_toString` — decimals are read as what they were written for.
-/

namespace ProbeWeaver.Text

variable {stem s t q : String} {c : Char} {cs : List Char} {n : Nat} {ns ms : List Nat}

/-! ## Decimals -/

theorem digit?_of_isDigit (hc : c.isDigit = true) : digit? 10 c = some (c.toNat - '0'.toNat) := by
  have hrange : '0' ≤ c ∧ c ≤ '9' := by
    rw [Char.isDigit, Bool.and_eq_true, decide_eq_true_iff, decide_eq_true_iff] at hc
    exact hc
  have hsmall : c.toNat - '0'.toNat < 10 := by
    have hle : c.toNat ≤ '9'.toNat := hrange.2
    have hnine : '9'.toNat = '0'.toNat + 9 := rfl
    omega
  rw [digit?, if_pos hrange]
  exact Option.filter_eq_some_iff.mpr ⟨rfl, decide_eq_true hsmall⟩

/-- Digits are read one after the other. -/
theorem valueFrom?_digits : ∀ {cs : List Char} (value : Nat), (∀ c ∈ cs, c.isDigit = true) →
    valueFrom? 10 value cs = some (Nat.ofDigitChars 10 cs value)
  | [], _, _ => rfl
  | c :: cs, value, h => by
      rw [valueFrom?, digit?_of_isDigit (h c List.mem_cons_self), Nat.ofDigitChars_cons,
        Nat.mul_comm 10 value]
      exact valueFrom?_digits _ fun d hd => h d (List.mem_cons_of_mem c hd)

/-- **A decimal is read as its number**, if that is below the limit. -/
theorem unsigned?_toString {limit : Nat} (hn : n < limit) :
    unsigned? 10 limit (toString n).toList = some n := by
  have hdigits : (toString n).toList = Nat.toDigits 10 n := by
    rw [Nat.toString_eq_repr, Nat.toList_repr]
  have hvalue : valueFrom? 10 0 (toString n).toList = some n := by
    rw [valueFrom?_digits 0 fun c hc => isDigit_of_mem_toString hc, hdigits,
      Nat.ofDigitChars_ten_toDigits]
  have hnil : (toString n).toList.isEmpty = false := by
    rw [hdigits, List.isEmpty_eq_false_iff]
    exact Nat.toDigits_ne_nil
  rw [unsigned?.eq_def]
  split
  · next digits hplus =>
    have hdigit := isDigit_of_mem_toString (n := n) (c := '+') (hplus ▸ List.mem_cons_self)
    exact absurd hdigit (by decide)
  · dsimp only
    rw [hnil, if_neg Bool.false_ne_true, hvalue]
    exact Option.filter_eq_some_iff.mpr ⟨rfl, decide_eq_true hn⟩

/-- The number that characters start with, and what follows its digits. -/
def numbered? (cs : List Char) : Option (Nat × List Char) :=
  if (cs.takeWhile Char.isDigit).isEmpty then none
  else some (Nat.ofDigitChars 10 (cs.takeWhile Char.isDigit) 0, cs.dropWhile Char.isDigit)

theorem numbered?_toString (n : Nat) (hc : c.isDigit = false) :
    numbered? ((toString n).toList ++ c :: cs) = some (n, c :: cs) := by
  have hdigits : (toString n).toList = Nat.toDigits 10 n := by
    rw [Nat.toString_eq_repr, Nat.toList_repr]
  have hdrop : ((toString n).toList ++ c :: cs).dropWhile Char.isDigit = c :: cs := by
    rw [List.dropWhile_append_of_pos fun d hd => isDigit_of_mem_toString hd,
      List.dropWhile_cons_of_neg (by rw [hc]; exact Bool.false_ne_true)]
  rw [numbered?, takeWhile_isDigit_toString n hc, hdrop, hdigits, Nat.ofDigitChars_ten_toDigits,
    if_neg]
  rw [List.isEmpty_iff]
  exact Nat.toDigits_ne_nil

/-! ## Texts apart -/

/-- The text does not start with a blank. -/
def Unspaced (s : String) : Prop := s.toList.head? ≠ some ' '

instance (s : String) : Decidable (Unspaced s) := inferInstanceAs (Decidable (_ ≠ _))

theorem unspaced_toString (n : Nat) : Unspaced (toString n) := fun h =>
  absurd (isDigit_of_mem_toString (List.mem_of_head? h)) (by decide)

theorem unspaced_append (hs : Unspaced s) (ht : Unspaced t) : Unspaced (s ++ t) := by
  rw [Unspaced, String.toList_append, List.head?_append]
  rw [Unspaced] at hs
  cases h : s.toList.head? with
  | none => exact ht
  | some c => rwa [h] at hs

/-- A text that starts with one that starts with no blank. -/
theorem unspaced_of_start (hs : Unspaced s) (hne : s.toList ≠ []) :
    Unspaced (s ++ t) := by
  rwa [Unspaced, String.toList_append, List.head?_append_of_ne_nil _ hne]

theorem unspaced_join : ∀ {l : List String}, (∀ s ∈ l, Unspaced s) → Unspaced (String.join l)
  | [], _ => nofun
  | s :: l, h => by
      rw [String.join_cons]
      exact unspaced_append (h s List.mem_cons_self) (unspaced_join fun t ht =>
        h t (List.mem_cons_of_mem s ht))

/-- **No occurrence of the stem goes over the end of the text**, unless a blank follows. -/
def Severable (stem s : String) : Prop :=
  ∀ y, Unspaced y → rests stem (s ++ y) = (rests stem s).map (· ++ y.toList) ++ rests stem y

theorem Separable.severable (h : Separable stem s) : Severable stem s := fun y _ => h y

theorem Severable.append (hs : Severable stem s) (ht : Severable stem t) (hspace : Unspaced t) :
    Severable stem (s ++ t) := by
  intro y hy
  rw [String.append_assoc, hs _ (unspaced_append hspace hy), ht y hy, hs t hspace, List.map_append,
    List.map_map, List.append_assoc]
  simp only [String.toList_append, Function.comp_def, List.append_assoc]

/-! ## Numbers behind a stem -/

/-- **The number, and the character that ends it**, start the text. -/
def StartsWith (n : Nat) (finish : Char) (rest : List Char) : Prop :=
  (toString n).toList ++ [finish] <+: rest

theorem StartsWith.append {finish : Char} {rest : List Char} (h : StartsWith n finish rest)
    (more : List Char) : StartsWith n finish (rest ++ more) :=
  h.trans (List.prefix_append rest more)

/-- **The numbers behind a stem** in a text, in order, each with the character that ends it. -/
structure Numbered (stem : String) (finish : Char) (s : String) (ns : List Nat) : Prop where
  severable : Severable stem s
  starts : List.Forall₂ (fun rest n => StartsWith n finish rest) (rests stem s) ns

variable {finish : Char}

theorem numbered_of_quiet (h : Quiet stem s) : Numbered stem finish s [] where
  severable := h.separable.severable
  starts := by
    rw [h.rests_eq_nil]
    exact .nil

theorem Numbered.append (hs : Numbered stem finish s ns) (ht : Numbered stem finish t ms)
    (hspace : Unspaced t) : Numbered stem finish (s ++ t) (ns ++ ms) where
  severable := hs.severable.append ht.severable hspace
  starts := by
    rw [hs.severable t hspace]
    refine List.rel_append (List.forall₂_map_left_iff.mpr ?_) ht.starts
    exact hs.starts.imp fun rest n h => h.append t.toList

/-- A part without the stem in front changes nothing. -/
theorem Numbered.quiet_append (hs : Quiet stem s) (ht : Numbered stem finish t ns) :
    Numbered stem finish (s ++ t) ns where
  severable := fun y hy => by
    rw [String.append_assoc, hs.rests_append, ht.severable y hy, hs.rests_append]
  starts := by
    rw [hs.rests_append]
    exact ht.starts

theorem numbered_join {α : Type} {text : α → String} {numbers : α → List Nat} : ∀ {l : List α},
    (∀ a ∈ l, Numbered stem finish (text a) (numbers a) ∧ Unspaced (text a)) →
      Numbered stem finish (String.join (l.map text)) (l.flatMap numbers)
  | [], _ => numbered_of_quiet ⟨fun _ => True.intro⟩
  | a :: l, h => by
      have hrest : ∀ b ∈ l, Numbered stem finish (text b) (numbers b) ∧ Unspaced (text b) :=
        fun b hb => h b (List.mem_cons_of_mem a hb)
      rw [List.map_cons, String.join_cons, List.flatMap_cons]
      refine (h a List.mem_cons_self).1.append (numbered_join hrest)
        (unspaced_join fun s hs => ?_)
      obtain ⟨b, hb, rfl⟩ := List.mem_map.mp hs
      exact (hrest b hb).2

/-! ## Reading numbers -/

/-- The number that characters start with, if this character ends it. -/
def numberBefore? (finish : Char) (cs : List Char) : Option Nat :=
  match numbered? cs with
  | some (n, c :: _) => if c = finish then some n else none
  | _ => none

theorem numberBefore?_of_startsWith {rest : List Char} (hfinish : finish.isDigit = false)
    (h : StartsWith n finish rest) : numberBefore? finish rest = some n := by
  obtain ⟨more, rfl⟩ := h
  rw [List.append_assoc, List.singleton_append, numberBefore?, numbered?_toString n hfinish]
  exact if_pos rfl

/-- **The numbers read** behind a stem in a text. -/
def numbersIn (stem : String) (finish : Char) (s : String) : List Nat :=
  (rests stem s).filterMap (numberBefore? finish)

/-- **Each number is read back** by what reads a number and its end. -/
theorem Numbered.filterMap_eq {read? : List Char → Option Nat} (h : Numbered stem finish s ns)
    (hread : ∀ n ∈ ns, ∀ rest, StartsWith n finish rest → read? rest = some n) :
    (rests stem s).filterMap read? = ns := by
  obtain ⟨-, hstarts⟩ := h
  generalize rests stem s = tails at hstarts ⊢
  induction hstarts with
  | nil => rfl
  | @cons rest n _ ns hstart _ ih =>
    rw [List.filterMap_cons_some (hread n List.mem_cons_self rest hstart),
      ih fun m hm => hread m (List.mem_cons_of_mem n hm)]

theorem Numbered.numbersIn_eq (hfinish : finish.isDigit = false) (h : Numbered stem finish s ns) :
    numbersIn stem finish s = ns :=
  h.filterMap_eq fun _ _ _ => numberBefore?_of_startsWith hfinish

end ProbeWeaver.Text
