import Mathlib.Data.List.Infix
import ProbeWeaver.Text.Search

/-!
# Proofs/Text/Occurrences — where a needle stands in a text put together from parts

`Silent needle x y` says that no occurrence of the needle in `x ++ y` starts in `x`.  A text that is
put together from silent parts and needles holds the needle at those places and nowhere else
(`restsAfter_append_of_silent`, `restsAfter_needle_append`).  A fixed part is silent when none of
its ends can be the start of the needle (`silent_of_clashes`), a foreign part when it does not hold
the needle and what follows cannot complete one (`Closes.quiet_append`, `quiet_of_closed`).

For texts, `Quiet needle s` is silence whatever follows, `rests needle s` lists what follows each
occurrence, and `Separable needle s` says that no occurrence goes over the end of `s`.
-/

namespace ProbeWeaver.Text

variable {needle x y z : List Char} {c : Char} {s : String}

/-! ## Occurrences and prefixes -/

theorem hasInfix_cons (needle : List Char) (c : Char) (cs : List Char) :
    hasInfix needle (c :: cs) = (needle.isPrefixOf (c :: cs) || hasInfix needle cs) := rfl

/-- A needle is in a text as a part of it. -/
theorem hasInfix_iff : ∀ {x : List Char}, hasInfix needle x = true ↔ needle <:+: x
  | [] => by rw [hasInfix, List.isEmpty_iff, List.infix_nil]
  | c :: x => by
      rw [hasInfix_cons, Bool.or_eq_true, List.isPrefixOf_iff_prefix, hasInfix_iff,
        List.infix_cons_iff]

/-- What starts a text is in it. -/
theorem hasInfix_of_start (h : needle <+: x) : hasInfix needle x = true :=
  hasInfix_iff.mpr h.isInfix

/-- What is in a text is in every text that starts with it. -/
theorem hasInfix_append_left (y : List Char) (h : hasInfix needle x = true) :
    hasInfix needle (x ++ y) = true :=
  hasInfix_iff.mpr ((hasInfix_iff.mp h).trans (List.prefix_append x y).isInfix)

/-- What is in a needle is wherever the needle is. -/
theorem hasInfix_of_longer {longer : List Char} (hlonger : needle <:+: longer)
    (h : hasInfix longer x = true) : hasInfix needle x = true :=
  hasInfix_iff.mpr (hlonger.trans (hasInfix_iff.mp h))

/-! ## Silent parts -/

/-- **No occurrence of the needle in `x ++ y` starts in `x`.** -/
def Silent (needle : List Char) : List Char → List Char → Prop
  | [], _ => True
  | c :: x, y => ¬ needle <+: c :: (x ++ y) ∧ Silent needle x y

@[simp] theorem silent_nil (needle y : List Char) : Silent needle [] y := True.intro

/-- **Silence of joined parts**: each has to be silent before what follows it. -/
theorem silent_append : ∀ {x : List Char},
    Silent needle (x ++ y) z ↔ Silent needle x (y ++ z) ∧ Silent needle y z
  | [] => ⟨fun h => ⟨True.intro, h⟩, fun h => h.2⟩
  | c :: x => by
      rw [List.cons_append, Silent, Silent, silent_append, List.append_assoc, and_assoc]

/-- A longer needle is no louder. -/
theorem Silent.of_longer {longer : List Char} (hlonger : needle <+: longer) :
    ∀ {x : List Char}, Silent needle x y → Silent longer x y
  | [], _ => True.intro
  | _ :: _, h => ⟨fun hprefix => h.1 (hlonger.trans hprefix), h.2.of_longer hlonger⟩

/-- **The search passes over a silent part.** -/
theorem restsAfter_append_of_silent : ∀ {x : List Char}, Silent needle x y →
    restsAfter needle 0 (x ++ y) = restsAfter needle 0 y
  | [], _ => rfl
  | c :: x, h => by
      rw [List.cons_append, restsAfter, if_neg (fun hprefix => h.1
        (List.isPrefixOf_iff_prefix.mp hprefix)), restsAfter_append_of_silent h.2]

/-- The search passes over as much as it is told to. -/
theorem restsAfter_length (y : List Char) : ∀ x : List Char,
    restsAfter needle x.length (x ++ y) = restsAfter needle 0 y
  | [] => rfl
  | c :: x => by rw [List.length_cons, List.cons_append, restsAfter, restsAfter_length y x]

/-- **The search stops at the needle** and goes on behind it. -/
theorem restsAfter_needle_append (hneedle : needle ≠ []) (y : List Char) :
    restsAfter needle 0 (needle ++ y) = y :: restsAfter needle 0 y := by
  obtain ⟨c, cs, rfl⟩ := List.exists_cons_of_ne_nil hneedle
  have hprefix : (c :: cs).isPrefixOf (c :: (cs ++ y)) = true :=
    List.isPrefixOf_iff_prefix.mpr (List.prefix_append (c :: cs) y)
  rw [List.cons_append, restsAfter, if_pos hprefix, List.length_cons, Nat.add_sub_cancel,
    restsAfter_length y cs, ← List.cons_append, ← List.length_cons, List.drop_left]

/-! ## Fixed parts -/

/-- No end of `x`, with the known start `z` of what follows, goes with the start of the needle. -/
def clashes {α : Type} [BEq α] (needle z : List α) : List α → Bool
  | [] => true
  | c :: x =>
    !(needle.isPrefixOf (c :: (x ++ z)) || (c :: (x ++ z)).isPrefixOf needle) && clashes needle z x

/-- **A fixed part is silent** when it clashes with the needle. -/
theorem silent_of_clashes : ∀ {x : List Char}, clashes needle z x = true →
    Silent needle x (z ++ y)
  | [], _ => True.intro
  | c :: x, h => by
      obtain ⟨hclash, hrest⟩ := Bool.and_eq_true_iff.mp h
      rw [Bool.not_eq_true', Bool.or_eq_false_iff] at hclash
      refine ⟨fun hprefix => ?_, silent_of_clashes hrest⟩
      rw [← List.append_assoc, ← List.cons_append] at hprefix
      rcases List.prefix_or_prefix_of_prefix hprefix (List.prefix_append _ y) with h | h
      · exact Bool.eq_false_iff.mp hclash.1 (List.isPrefixOf_iff_prefix.mpr h)
      · exact Bool.eq_false_iff.mp hclash.2 (List.isPrefixOf_iff_prefix.mpr h)

theorem clashes_of_append {α : Type} [BEq α] {needle z y : List α} : ∀ {x : List α},
    clashes needle z (x ++ y) = true → clashes needle z y = true
  | [], h => h
  | _ :: _, h => clashes_of_append (Bool.and_eq_true_iff.mp h).2

/-- The bytes of characters. -/
def encode (cs : List Char) : List UInt8 := cs.flatMap String.utf8EncodeChar

/-- **A fixed part is silent** when its bytes clash with those of the needle, which is what a long
literal is cheaply tested by. -/
theorem silent_of_clashes_encode : ∀ {x : List Char},
    clashes (encode needle) [] (encode x) = true → Silent needle x y
  | [], _ => True.intro
  | c :: x, h => by
      rw [show encode (c :: x) = String.utf8EncodeChar c ++ encode x from List.flatMap_cons] at h
      refine ⟨fun hprefix => ?_, silent_of_clashes_encode (clashes_of_append h)⟩
      have hbytes : encode needle <+: String.utf8EncodeChar c ++ encode x ++ encode y := by
        obtain ⟨rest, hrest⟩ := hprefix
        refine ⟨encode rest, ?_⟩
        rw [encode, encode, ← List.flatMap_append, hrest, List.flatMap_cons, List.flatMap_append,
          ← List.append_assoc]
        rfl
      obtain ⟨b, bs, hb⟩ := List.exists_cons_of_ne_nil (String.utf8EncodeChar_ne_nil : String.utf8EncodeChar c ≠ [])
      rw [hb] at h hbytes
      obtain ⟨hclash, -⟩ := Bool.and_eq_true_iff.mp h
      rw [List.append_nil, Bool.not_eq_true', Bool.or_eq_false_iff] at hclash
      rcases List.prefix_or_prefix_of_prefix hbytes (List.prefix_append _ _) with h | h
      · exact Bool.eq_false_iff.mp hclash.1 (List.isPrefixOf_iff_prefix.mpr h)
      · exact Bool.eq_false_iff.mp hclash.2 (List.isPrefixOf_iff_prefix.mpr h)

/-- A part without the first character of the needle. -/
theorem silent_of_not_mem {rest : List Char} : ∀ {x : List Char}, c ∉ x → Silent (c :: rest) x y
  | [], _ => True.intro
  | d :: x, h => by
      rw [List.mem_cons, not_or] at h
      refine ⟨fun hprefix => h.1 ?_, silent_of_not_mem h.2⟩
      exact (List.cons_prefix_cons.mp hprefix).1

/-! ## Foreign parts -/

/-- A needle starts two joined parts when it starts the first or goes on into the second. -/
theorem prefix_append_cases (h : needle <+: x ++ y) :
    needle <+: x ∨ ∃ d rest, needle = x ++ d :: rest ∧ d :: rest <+: y := by
  rcases List.prefix_or_prefix_of_prefix h (List.prefix_append x y) with hshort | ⟨rest, rfl⟩
  · exact .inl hshort
  · cases rest with
    | nil => exact .inl (by rw [List.append_nil])
    | cons d rest => exact .inr ⟨d, rest, rfl, (List.prefix_append_right_inj x).mp h⟩

/-- A part without the needle is silent when no needle goes on from it into what follows. -/
theorem silent_of_not_hasInfix : ∀ {x : List Char}, hasInfix needle x = false →
    (∀ w d rest, w ≠ [] → w <:+ x → needle = w ++ d :: rest → ¬ d :: rest <+: y) →
      Silent needle x y
  | [], _, _ => True.intro
  | c :: x, h, hon => by
      have hhere := h
      rw [hasInfix_cons, Bool.or_eq_false_iff] at h
      refine ⟨fun hprefix => ?_, silent_of_not_hasInfix h.2 fun w d rest hw hsuffix =>
        hon w d rest hw (hsuffix.trans (List.suffix_cons c x))⟩
      rw [← List.cons_append] at hprefix
      rcases prefix_append_cases hprefix with hshort | ⟨d, rest, hneedle, hrest⟩
      · exact Bool.eq_false_iff.mp hhere (hasInfix_of_start hshort)
      · exact hon (c :: x) d rest (List.cons_ne_nil c x) List.suffix_rfl hneedle hrest

/-- No needle that started before the text goes on in it. -/
def cutsOff (needle z : List Char) : Bool :=
  needle.tail.tails.all fun b => b.isEmpty || !(b.isPrefixOf z || z.isPrefixOf b)

theorem cutsOff_iff : cutsOff needle z = true ↔
    ∀ b, b <:+ needle.tail → b ≠ [] → ¬ b <+: z ∧ ¬ z <+: b := by
  rw [cutsOff, List.all_eq_true]
  refine forall_congr' fun b => ?_
  rw [List.mem_tails, Bool.or_eq_true, List.isEmpty_iff, Bool.not_eq_true', Bool.or_eq_false_iff,
    Bool.eq_false_iff, Bool.eq_false_iff, ne_eq, ne_eq, List.isPrefixOf_iff_prefix,
    List.isPrefixOf_iff_prefix, or_iff_not_imp_left]

theorem cutsOff_append (h : cutsOff needle z = true) : cutsOff needle (z ++ y) = true := by
  rw [cutsOff_iff] at h ⊢
  intro b hb hne
  obtain ⟨hnot, hnot'⟩ := h b hb hne
  refine ⟨fun hprefix => ?_, fun hprefix => hnot' ((List.prefix_append z y).trans hprefix)⟩
  rcases List.prefix_or_prefix_of_prefix hprefix (List.prefix_append z y) with h | h
  · exact hnot h
  · exact hnot' h

/-- **A foreign part is silent** when it does not hold the needle and what follows cuts off every
needle that it may have begun. -/
theorem silent_of_cutsOff (hz : cutsOff needle z = true) (h : hasInfix needle x = false) :
    Silent needle x (z ++ y) := by
  refine silent_of_not_hasInfix h fun w d rest hw _ hneedle hrest => ?_
  have hsuffix : d :: rest <:+ needle.tail := by
    rw [hneedle, List.tail_append_of_ne_nil hw]
    exact List.suffix_append w.tail (d :: rest)
  exact (cutsOff_iff.mp (cutsOff_append hz) _ hsuffix (List.cons_ne_nil d rest)).1 hrest

/-- **A foreign part closed by a character** that the needle can only end with. -/
theorem silent_of_closed (hc : c ∉ needle.dropLast) (h : hasInfix needle (x ++ [c]) = false) :
    Silent needle (x ++ [c]) y := by
  refine silent_of_not_hasInfix h fun w d rest hw hsuffix hneedle _ => hc ?_
  have hlast : w.getLast hw = c := by
    rw [hsuffix.getLast hw, List.getLast_concat]
  rw [hneedle, List.dropLast_append_of_ne_nil (List.cons_ne_nil d rest), ← hlast]
  exact List.mem_append_left _ (List.getLast_mem hw)

/-! ## Digits -/

theorem isDigit_of_mem_toString {n : Nat} (h : c ∈ (toString n).toList) : c.isDigit = true := by
  rw [Nat.toString_eq_repr, Nat.toList_repr] at h
  exact Nat.isDigit_of_mem_toDigits (by decide) (by decide) h

/-- **Digits are silent** for a needle that starts with none. -/
theorem silent_toString {rest : List Char} (hc : c.isDigit = false) (n : Nat) :
    Silent (c :: rest) (toString n).toList y :=
  silent_of_not_mem fun h => by
    rw [isDigit_of_mem_toString h] at hc
    contradiction

/-- The number that a text starts with, up to a character that is no digit. -/
theorem takeWhile_isDigit_toString (n : Nat) (hc : c.isDigit = false) :
    ((toString n).toList ++ c :: y).takeWhile Char.isDigit = (toString n).toList := by
  rw [List.takeWhile_append_of_pos fun d hd => isDigit_of_mem_toString hd,
    List.takeWhile_cons_of_neg (by rw [hc]; exact Bool.false_ne_true), List.append_nil]

/-! ## Texts -/

/-- What follows each occurrence of a needle in a text. -/
def rests (needle s : String) : List (List Char) := restsAfter needle.toList 0 s.toList

/-- The needle is in the text when it occurs. -/
theorem contains_eq_false_iff {needle : String} (hneedle : needle.toList ≠ []) :
    contains s needle = false ↔ rests needle s = [] := by
  rw [contains, rests]
  generalize s.toList = x
  induction x with
  | nil =>
    obtain ⟨c, cs, hcs⟩ := List.exists_cons_of_ne_nil hneedle
    rw [hcs]
    exact ⟨fun _ => rfl, fun _ => rfl⟩
  | cons c x ih =>
    rw [hasInfix_cons, restsAfter, Bool.or_eq_false_iff]
    by_cases hprefix : needle.toList.isPrefixOf (c :: x) = true
    · rw [if_pos hprefix, hprefix]
      exact iff_of_false (fun h => nomatch h.1) (List.cons_ne_nil _ _)
    · rw [if_neg hprefix, ← ih]
      exact ⟨And.right, fun h => ⟨Bool.eq_false_iff.mpr hprefix, h⟩⟩

/-- A text is a start of what it is put in front of. -/
theorem toList_prefix_append (s t : String) : s.toList <+: (s ++ t).toList := by
  rw [String.toList_append]
  exact List.prefix_append s.toList t.toList

/-- **No occurrence of the needle starts in the text**, whatever follows it. -/
structure Quiet (needle s : String) : Prop where
  silent : ∀ y, Silent needle.toList s.toList y

/-- **No occurrence of the needle goes over the end of the text.** -/
def Separable (needle s : String) : Prop :=
  ∀ y, rests needle (s ++ y) = (rests needle s).map (· ++ y.toList) ++ rests needle y

section Texts

variable {needle longer s t f : String}

theorem Quiet.append (hs : Quiet needle s) (ht : Quiet needle t) : Quiet needle (s ++ t) := by
  refine ⟨fun y => ?_⟩
  rw [String.toList_append, silent_append]
  exact ⟨hs.silent _, ht.silent y⟩

theorem Quiet.of_longer (h : Quiet needle s) (hlonger : needle.toList <+: longer.toList) :
    Quiet longer s :=
  ⟨fun y => (h.silent y).of_longer hlonger⟩

/-- The bytes of a text. -/
def bytes (s : String) : List UInt8 := s.toByteArray.data.toList

theorem bytes_eq (s : String) : bytes s = encode s.toList := by
  rw [bytes, ← String.utf8Encode_toList]
  simp [List.utf8Encode, encode]

theorem quiet_of_clashes (h : clashes (bytes needle) [] (bytes s) = true) : Quiet needle s := by
  refine ⟨fun y => ?_⟩
  rw [bytes_eq, bytes_eq] at h
  exact silent_of_clashes_encode h

theorem quiet_toString {rest : List Char} (hneedle : needle.toList = c :: rest)
    (hc : c.isDigit = false) (n : Nat) : Quiet needle (toString n) := by
  refine ⟨fun y => ?_⟩
  rw [hneedle]
  exact silent_toString hc n

theorem quiet_join : ∀ {l : List String}, (∀ s ∈ l, Quiet needle s) → Quiet needle (String.join l)
  | [], _ => ⟨fun _ => True.intro⟩
  | s :: l, h => by
      rw [String.join_cons]
      exact (h s List.mem_cons_self).append (quiet_join fun t ht => h t (List.mem_cons_of_mem s ht))

/-- **A foreign text closed by a character** that the needle can only end with. -/
theorem quiet_of_closed (hc : c ∉ needle.toList.dropLast)
    (h : contains (s ++ String.singleton c) needle = false) :
    Quiet needle (s ++ String.singleton c) := by
  refine ⟨fun y => ?_⟩
  rw [contains, String.toList_append, String.toList_singleton] at h
  rw [String.toList_append, String.toList_singleton]
  exact silent_of_closed hc h

/-- **The text closes foreign ones**: no needle begun before it goes on in it, and none starts. -/
structure Closes (needle f : String) : Prop where
  cuts : cutsOff needle.toList f.toList = true
  quiet : Quiet needle f

theorem Closes.quiet_append (h : Closes needle f) (hs : contains s needle = false) :
    Quiet needle (s ++ f) := by
  refine ⟨fun y => ?_⟩
  rw [String.toList_append, silent_append]
  exact ⟨silent_of_cutsOff h.cuts hs, h.quiet.silent y⟩

/-- What the text starts with is what closes. -/
theorem Closes.append (h : Closes needle f) (ht : Quiet needle t) : Closes needle (f ++ t) where
  cuts := by
    rw [String.toList_append]
    exact cutsOff_append h.cuts
  quiet := h.quiet.append ht

/-- **A character in front** that the needle does not go on with leaves a closing text one. -/
theorem Closes.cons (h : Closes needle f) (htail : needle.toList.tail ≠ [])
    (hc : c ∉ needle.toList.tail) : Closes needle (String.singleton c ++ f) where
  cuts := by
    rw [String.toList_append, String.toList_singleton, cutsOff_iff]
    intro b hb hne
    obtain ⟨d, b, rfl⟩ := List.exists_cons_of_ne_nil hne
    have hd : d ≠ c := by
      rintro rfl
      exact hc (hb.mem List.mem_cons_self)
    exact ⟨fun h => hd (List.cons_prefix_cons.mp h).1, fun h => hd (List.cons_prefix_cons.mp h).1.symm⟩
  quiet := by
    refine ⟨fun y => ?_⟩
    rw [String.toList_append, String.toList_singleton, List.singleton_append]
    refine ⟨fun hprefix => ?_, h.quiet.silent y⟩
    obtain ⟨hnot, hnot'⟩ := cutsOff_iff.mp h.cuts _ List.suffix_rfl htail
    have htails : needle.toList.tail <+: f.toList ++ y := by
      cases hneedle : needle.toList with
      | nil => exact List.nil_prefix
      | cons d rest =>
        rw [hneedle] at hprefix
        exact (List.cons_prefix_cons.mp hprefix).2
    rcases List.prefix_or_prefix_of_prefix htails (List.prefix_append _ y) with h | h
    · exact hnot h
    · exact hnot' h

theorem Quiet.rests_append (h : Quiet needle s) (t : String) :
    rests needle (s ++ t) = rests needle t := by
  rw [rests, String.toList_append, restsAfter_append_of_silent (h.silent _), rests]

theorem Quiet.rests_eq_nil (h : Quiet needle s) : rests needle s = [] := by
  have := h.rests_append ""
  rwa [String.append_empty] at this

theorem rests_needle_append (hneedle : needle.toList ≠ []) (t : String) :
    rests needle (needle ++ t) = t.toList :: rests needle t := by
  rw [rests, String.toList_append, restsAfter_needle_append hneedle, rests]

theorem Quiet.separable (h : Quiet needle s) : Separable needle s := by
  intro y
  rw [h.rests_append, h.rests_eq_nil, List.map_nil, List.nil_append]

theorem separable_needle (hneedle : needle.toList ≠ []) : Separable needle needle := by
  intro y
  have hself := rests_needle_append hneedle ""
  rw [String.append_empty] at hself
  rw [rests_needle_append hneedle, hself]
  rfl

theorem Separable.append (hs : Separable needle s) (ht : Separable needle t) :
    Separable needle (s ++ t) := by
  intro y
  rw [String.append_assoc, hs, ht, hs t, List.map_append, List.map_map, List.append_assoc]
  simp only [String.toList_append, Function.comp_def, List.append_assoc]

theorem rests_join : ∀ {l : List String}, (∀ s ∈ l, Separable needle s) →
    (rests needle (String.join l) = [] ↔ ∀ s ∈ l, rests needle s = [])
  | [], _ => iff_of_true rfl fun _ h => absurd h List.not_mem_nil
  | s :: l, h => by
      rw [String.join_cons, h s List.mem_cons_self, List.append_eq_nil_iff, List.map_eq_nil_iff,
        rests_join fun t ht => h t (List.mem_cons_of_mem s ht), List.forall_mem_cons]

end Texts

end ProbeWeaver.Text
