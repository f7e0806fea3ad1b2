import Mathlib.Logic.Function.Basic
import ProbeWeaver.Proofs.Edit.Arrivals

/-!
# Proofs/Text/Weaving — a text with something put at each offset

`weave put s i j` is the text between two boundaries with `put x` at each boundary `x` on the way,
both ends included.  It is cut at any boundary on the way, what is put there being cut as well.

* `weave_append` — a range cut in two.
* `weave_around` — a range inside a range, with what is put at its ends.
* `weave_cut`, `weave_at` — part of what is put at one boundary.
* `editedBetween_eq_weave` — insertions carried out are woven in.
-/

namespace ProbeWeaver.Text

variable {put l r : Nat → String} {s : String} {i j k m : Nat} {cs ds : List Char}

/-- Characters from an offset on, with something put at each boundary. -/
def putInto (put : Nat → String) : Nat → List Char → String
  | i, [] => put i
  | i, c :: cs => put i ++ (String.singleton c ++ putInto put (i + c.utf8Size) cs)

/-- **A range of the text** with something put at each boundary, both ends included. -/
def weave (put : Nat → String) (s : String) (i j : Nat) : String :=
  putInto put i (slice s i j).toList

/-! ## Characters -/

/-- The bytes of characters. -/
def sizeOf (cs : List Char) : Nat := (String.ofList cs).utf8ByteSize

theorem sizeOf_nil : sizeOf [] = 0 := rfl

theorem sizeOf_cons (c : Char) (cs : List Char) : sizeOf (c :: cs) = c.utf8Size + sizeOf cs := by
  rw [sizeOf, sizeOf, ← List.singleton_append, String.ofList_append, String.utf8ByteSize_append]
  simp

theorem sizeOf_toList (s : String) : sizeOf s.toList = s.utf8ByteSize := by
  rw [sizeOf, String.ofList_toList]

theorem putInto_congr : ∀ {cs : List Char} {i : Nat},
    (∀ x, i ≤ x → x ≤ i + sizeOf cs → put x = l x) → putInto put i cs = putInto l i cs
  | [], i, h => h i (Nat.le_refl i) (Nat.le_add_right i _)
  | c :: cs, i, h => by
      rw [sizeOf_cons] at h
      rw [putInto, putInto, h i (Nat.le_refl i) (Nat.le_add_right i _),
        putInto_congr fun x hle hge => h x (by omega) (by omega)]

theorem putInto_of_empty : ∀ {cs : List Char} {i : Nat},
    (∀ x, i ≤ x → x ≤ i + sizeOf cs → put x = "") → putInto put i cs = String.ofList cs
  | [], i, h => h i (Nat.le_refl i) (Nat.le_add_right i _)
  | c :: cs, i, h => by
      rw [sizeOf_cons] at h
      rw [putInto, h i (Nat.le_refl i) (Nat.le_add_right i _),
        putInto_of_empty fun x hle hge => h x (by omega) (by omega), String.empty_append,
        String.ofList_cons]

theorem putInto_append : ∀ {cs : List Char} {i : Nat},
    (∀ x, i ≤ x → x < i + sizeOf cs → put x = l x) →
      put (i + sizeOf cs) = l (i + sizeOf cs) ++ r (i + sizeOf cs) →
        (∀ x, i + sizeOf cs < x → x ≤ i + sizeOf cs + sizeOf ds → put x = r x) →
          putInto put i (cs ++ ds) = putInto l i cs ++ putInto r (i + sizeOf cs) ds
  | [], i, _, hmid, hright => by
      rw [sizeOf_nil, Nat.add_zero] at hmid hright
      rw [List.nil_append, sizeOf_nil, Nat.add_zero, putInto.eq_1 l]
      cases ds with
      | nil => exact hmid
      | cons d ds =>
        rw [sizeOf_cons] at hright
        have hd := d.utf8Size_pos
        rw [putInto, putInto, hmid, String.append_assoc,
          putInto_congr fun x hle hge => hright x (by omega) (by omega)]
  | c :: cs, i, hleft, hmid, hright => by
      have hc := c.utf8Size_pos
      rw [sizeOf_cons, ← Nat.add_assoc] at hleft hmid hright
      rw [List.cons_append, putInto, putInto, hleft i (Nat.le_refl i) (by omega), sizeOf_cons,
        ← Nat.add_assoc, putInto_append (fun x hle hlt => hleft x (by omega) hlt) hmid hright,
        String.append_assoc, String.append_assoc]

/-! ## Ranges -/

theorem sizeOf_slice (hi : IsBoundary s i) (hj : IsBoundary s j) (hij : i ≤ j) :
    i + sizeOf (slice s i j).toList = j := by
  rw [sizeOf_toList, size_slice hi hj hij]
  omega

theorem weave_self (put : Nat → String) (s : String) (i : Nat) : weave put s i i = put i := by
  rw [weave, slice_self]
  rfl

theorem weave_congr (hi : IsBoundary s i) (hj : IsBoundary s j) (hij : i ≤ j)
    (h : ∀ x, i ≤ x → x ≤ j → put x = l x) : weave put s i j = weave l s i j := by
  rw [← sizeOf_slice hi hj hij] at h
  exact putInto_congr h

/-- Where nothing is put, the text stands as it is. -/
theorem weave_of_empty (hi : IsBoundary s i) (hj : IsBoundary s j) (hij : i ≤ j)
    (h : ∀ x, i ≤ x → x ≤ j → put x = "") : weave put s i j = slice s i j := by
  rw [← sizeOf_slice hi hj hij] at h
  rw [weave, putInto_of_empty h, String.ofList_toList]

/-- **A range cut in two**, and what is put at the cut as well. -/
theorem weave_append (hi : IsBoundary s i) (hk : IsBoundary s k) (hj : IsBoundary s j) (hik : i ≤ k)
    (hkj : k ≤ j) (hleft : ∀ x, i ≤ x → x < k → put x = l x) (hmid : put k = l k ++ r k)
    (hright : ∀ x, k < x → x ≤ j → put x = r x) :
    weave put s i j = weave l s i k ++ weave r s k j := by
  have hfront := sizeOf_slice hi hk hik
  have hback := sizeOf_slice hk hj hkj
  rw [weave, ← slice_append_slice hi hk hj hik hkj, String.toList_append, weave, weave]
  rw [putInto_append (l := l) (r := r)]
  · rw [hfront]
  · rw [hfront]
    exact hleft
  · rw [hfront]
    exact hmid
  · rw [hfront, hback]
    exact hright

/-- Nothing put before the end. -/
theorem weave_of_empty_before (hi : IsBoundary s i) (hj : IsBoundary s j) (hij : i ≤ j)
    (h : ∀ x, i ≤ x → x < j → put x = "") : weave put s i j = slice s i j ++ put j := by
  have hempty : weave (fun _ => "") s i j = slice s i j :=
    weave_of_empty hi hj hij fun _ _ _ => rfl
  rw [← hempty, ← weave_self put s j]
  exact weave_append hi hj hj hij (Nat.le_refl j) h (String.empty_append ..).symm
    fun x hlt hle => absurd hlt (Nat.not_lt.mpr hle)

/-- **A range inside a range**: what is put at its ends is cut into what belongs to it and what
stands around it. -/
theorem weave_around {a b : Nat} {x y : String} (hi : IsBoundary s i) (ha : IsBoundary s a)
    (hb : IsBoundary s b) (hj : IsBoundary s j) (hia : i ≤ a) (hab : a ≤ b) (hbj : b ≤ j)
    (hinside : ∀ o, a < o → o < b → put o = l o) (hone : a = b → put a = x ++ (l a ++ y))
    (hfirst : a < b → put a = x ++ l a) (hlast : a < b → put b = l b ++ y) :
    weave put s i j = weave (Function.update put a x) s i a ++
      (weave l s a b ++ weave (Function.update put b y) s b j) := by
  have hbefore (o : Nat) (_ : i ≤ o) (ho : o < a) : put o = Function.update put a x o :=
    (Function.update_of_ne (Nat.ne_of_lt ho) x put).symm
  have hafter (z : String) (o : Nat) (ho : a < o) (_ : o ≤ j) :
      put o = Function.update put a z o := (Function.update_of_ne (Nat.ne_of_gt ho) z put).symm
  rcases Nat.eq_or_lt_of_le hab with rfl | hlt
  · have hrest : weave (Function.update put a (l a ++ y)) s a j =
        weave l s a a ++ weave (Function.update put a y) s a j :=
      weave_append ha ha hj (Nat.le_refl a) hbj (fun o ho ho' => absurd ho' (Nat.not_lt.mpr ho))
        (by rw [Function.update_self, Function.update_self]) fun o ho _ => by
          rw [Function.update_of_ne (Nat.ne_of_gt ho), Function.update_of_ne (Nat.ne_of_gt ho)]
    rw [← hrest]
    exact weave_append hi ha hj hia hbj hbefore
      (by rw [Function.update_self, Function.update_self, hone rfl]) (hafter _)
  · have hrest : weave (Function.update put a (l a)) s a j =
        weave l s a b ++ weave (Function.update put b y) s b j := by
      refine weave_append ha hb hj hab hbj (fun o ho ho' => ?_) ?_ fun o ho _ => ?_
      · rcases Nat.eq_or_lt_of_le ho with rfl | ho
        · rw [Function.update_self]
        · rw [Function.update_of_ne (Nat.ne_of_gt ho), hinside o ho ho']
      · rw [Function.update_self, Function.update_of_ne (Nat.ne_of_gt hlt), hlast hlt]
      · rw [Function.update_of_ne (Nat.ne_of_gt ho),
          Function.update_of_ne (Nat.ne_of_gt (Nat.lt_trans hlt ho))]
    rw [← hrest]
    exact weave_append hi ha hj hia (Nat.le_trans hab hbj) hbefore
      (by rw [Function.update_self, Function.update_self, hfirst hlt]) (hafter _)

/-- Something put at both ends of a range stands around it. -/
theorem weave_between {x y : String} (hi : IsBoundary s i) (hj : IsBoundary s j) (hij : i ≤ j)
    (hinside : ∀ o, i < o → o < j → put o = l o) (hone : i = j → put i = x ++ (l i ++ y))
    (hfirst : i < j → put i = x ++ l i) (hlast : i < j → put j = l j ++ y) :
    weave put s i j = x ++ (weave l s i j ++ y) := by
  rw [weave_around hi hi hj hj (Nat.le_refl i) hij (Nat.le_refl j) hinside hone hfirst hlast,
    weave_self, weave_self, Function.update_self, Function.update_self]

/-- **A range cut at a boundary**, part of what is put there on each side. -/
theorem weave_cut {o : Nat} {x y : String} (hi : IsBoundary s i) (ho : IsBoundary s o)
    (hj : IsBoundary s j) (hio : i ≤ o) (hoj : o ≤ j) (hput : put o = x ++ y) :
    weave put s i j = weave (Function.update put o x) s i o ++
      weave (Function.update put o y) s o j :=
  weave_append hi ho hj hio hoj
    (fun a _ ha => (Function.update_of_ne (Nat.ne_of_lt ha) x put).symm)
    (by rw [Function.update_self, Function.update_self, hput])
    fun a ha _ => (Function.update_of_ne (Nat.ne_of_gt ha) y put).symm

/-- What is put at the start of a range stands at its start. -/
theorem weave_update_append (hi : IsBoundary s i) (hj : IsBoundary s j) (hij : i ≤ j)
    (put : Nat → String) (x y : String) : weave (Function.update put i (x ++ y)) s i j =
      x ++ weave (Function.update put i y) s i j := by
  rw [weave_cut hi hi hj (Nat.le_refl i) hij (Function.update_self i (x ++ y) put), weave_self,
    Function.update_self, Function.update_idem]

/-- Part of what is put at a boundary stands between the text before and the text behind. -/
theorem weave_at {o : Nat} {x y z : String} (hi : IsBoundary s i) (ho : IsBoundary s o)
    (hj : IsBoundary s j) (hio : i ≤ o) (hoj : o ≤ j) (hput : put o = x ++ (y ++ z)) :
    weave put s i j = weave (Function.update put o x) s i o ++
      (y ++ weave (Function.update put o z) s o j) := by
  rw [weave_cut hi ho hj hio hoj hput, weave_update_append ho hj hoj]

/-! ## Insertions -/

/-- **Insertions carried out are woven in.** -/
theorem editedBetween_eq_weave : ∀ {l : List Edit} {i : Nat} {put : Nat → String}, InsertsOnly l →
    (∀ e ∈ l, Edit.OnBoundaries s e) → l.Pairwise (·.offset < ·.offset) → IsBoundary s i →
      IsBoundary s j → i ≤ j → (∀ e ∈ l, i ≤ e.offset ∧ e.offset ≤ j ∧ put e.offset = e.text) →
        (∀ x, i ≤ x → x ≤ j → (∀ e ∈ l, e.offset ≠ x) → put x = "") →
          editedBetween s i l j = weave put s i j
  | [], i, put, _, _, _, hi, hj, hij, _, hempty => by
      rw [weave_of_empty hi hj hij fun x hx hx' =>
        hempty x hx hx' fun e he => absurd he List.not_mem_nil]
      rfl
  | e :: l, i, put, hins, hon, hasc, hi, hj, hij, htext, hempty => by
      obtain ⟨hfirst, hasc⟩ := List.pairwise_cons.mp hasc
      obtain ⟨hie, hej, hput⟩ := htext e List.mem_cons_self
      have he : IsBoundary s e.offset := (hon e List.mem_cons_self).1
      have hstop : e.stop = e.offset := insertion_stop (hins e List.mem_cons_self)
      have hbehind {x : Nat} (h : e.offset < x) : Function.update put e.offset "" x = put x :=
        Function.update_of_ne (Nat.ne_of_gt h) "" put
      have hrest : editedBetween s e.offset l j =
          weave (Function.update put e.offset "") s e.offset j := by
        refine editedBetween_eq_weave (fun d hd => hins d (List.mem_cons_of_mem e hd))
          (fun d hd => hon d (List.mem_cons_of_mem e hd)) hasc he hj hej (fun d hd => ?_)
          fun x hx hx' hne => ?_
        · obtain ⟨-, hdj, hdput⟩ := htext d (List.mem_cons_of_mem e hd)
          exact ⟨Nat.le_of_lt (hfirst d hd), hdj, (hbehind (hfirst d hd)).trans hdput⟩
        · rcases Nat.eq_or_lt_of_le hx with rfl | hlt
          · exact Function.update_self ..
          · rw [hbehind hlt]
            refine hempty x (by omega) hx' fun d hd => ?_
            rcases List.mem_cons.mp hd with rfl | hd
            · exact Nat.ne_of_lt hlt
            · exact hne d hd
      have hfront : ∀ x, i ≤ x → x < e.offset → put x = "" := by
        intro x hx hlt
        refine hempty x hx (by omega) fun d hd => ?_
        rcases List.mem_cons.mp hd with rfl | hd
        · exact Nat.ne_of_gt hlt
        · exact Nat.ne_of_gt (Nat.lt_trans hlt (hfirst d hd))
      rw [editedBetween, hstop, hrest, ← hput, ← weave_of_empty_before hi he hie hfront]
      exact (weave_append hi he hj hie hej (fun _ _ _ => rfl)
        (by rw [Function.update_self, String.append_empty]) fun x hx _ => (hbehind hx).symm).symm

end ProbeWeaver.Text

namespace ProbeWeaver

/-- **The edited text of a set of insertions**: at each offset what arrived for it. -/
theorem EditSet.Gathers.apply_eq {set : EditSet} {edits : List Edit} {source : String}
    (h : set.Gathers edits) (hfits : Edit.Fits source set.entries) :
    set.apply source = .ok (Text.weave (textAt edits) source 0 source.utf8ByteSize) := by
  rw [apply, applyAll_eq_ok hfits]
  refine congrArg Except.ok (Text.editedBetween_eq_weave h.inserts hfits.onBoundaries h.ascending
    (Text.isBoundary_zero source) (Text.isBoundary_size source) (Nat.zero_le _) (fun e he => ?_)
    fun x _ _ hne => ?_)
  · exact ⟨Nat.zero_le _, (hfits.onBoundaries e he).1.le_size, (h.text e he).symm⟩
  · refine textAt_of_forall_ne fun e he hex => ?_
    obtain ⟨d, hd, hdx⟩ := (h.offsets x).mpr ⟨e, he, hex⟩
    exact hne d hd hdx

end ProbeWeaver
