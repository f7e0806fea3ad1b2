import Mathlib.Data.List.Induction
import ProbeWeaver.Proofs.Edit.Arrangement
import ProbeWeaver.Proofs.Edit.Arrivals

/-!
# Proofs/Edit/Composition — insertions between replacements

Edits of which only insertions claim the same place compose: each entry of the set stands for a
stretch of the edits in their order (`StandsFor`), and its text is what that stretch makes of its
range.  One thing gets lost on the way.  The second insertion at an offset is folded with the
replacements that touch it, and from then on their starts are hidden inside one entry: the place is
`Closed`, and a later insertion there does not find the earlier ones.

* `exists_addAll_arranged` — as long as no insertion arrives at a closed place, every edit is
  accepted and the edited text has them all in their order.
* `addAll_third_insertion` — the third insertion in front of a replacement goes to the front.
-/

namespace ProbeWeaver

open Text Edit

variable {source : String} {i j k p : Nat} {d e x : Edit} {edits l m l' m' A B C : List Edit}
  {set : EditSet}

namespace Edit

/-- **Edits that go together**: only insertions claim the same place. -/
def Compatible (a b : Edit) : Prop := a.overlaps b = true → a.length = 0 ∧ b.length = 0

instance (a b : Edit) : Decidable (Compatible a b) :=
  inferInstanceAs (Decidable (_ = true → _))

/-- No edit replaces bytes on both sides of the place. -/
def Outside (edits : List Edit) (p : Nat) : Prop := ∀ d ∈ edits, ¬ (d.offset < p ∧ p < d.stop)

/-- **A replacement at `p` touches an insertion at `o`**: every byte between is deleted. -/
def Touches (edits : List Edit) (o p : Nat) : Prop :=
  o ≤ p ∧ (∃ d ∈ edits, d.length ≠ 0 ∧ d.offset = p) ∧
    ∀ k < p, o ≤ k → ∃ d ∈ edits, d.size = 0 ∧ d.offset ≤ k ∧ k < d.stop

instance (edits : List Edit) (o p : Nat) : Decidable (Touches edits o p) :=
  inferInstanceAs (Decidable (_ ∧ _ ∧ _))

/-- **The arrival `e` closes the place**: it is the second insertion at an offset that a replacement
at the place touches. -/
def Closes (edits : List Edit) (e : Edit) (p : Nat) : Prop :=
  e.length = 0 ∧ (∃ d ∈ edits, d.length = 0 ∧ d.offset = e.offset) ∧ Touches edits e.offset p

instance (edits : List Edit) (e : Edit) (p : Nat) : Decidable (Closes edits e p) :=
  inferInstanceAs (Decidable (_ ∧ _ ∧ _))

/-- **Some edit arrives so**: `P` says it of the edits before it and of the edit. -/
def SomeArrives (P : List Edit → Edit → Prop) (edits : List Edit) : Prop :=
  ∃ n : Fin edits.length, P (edits.take n) edits[n]

instance (P : List Edit → Edit → Prop) (edits : List Edit) [∀ before e, Decidable (P before e)] :
    Decidable (SomeArrives P edits) :=
  inferInstanceAs (Decidable (∃ n : Fin edits.length, P (edits.take n) edits[n]))

/-- The last edit arrives behind all others. -/
theorem someArrives_concat {P : List Edit → Edit → Prop} :
    SomeArrives P (edits ++ [e]) ↔ SomeArrives P edits ∨ P edits e := by
  have hlength : (edits ++ [e]).length = edits.length + 1 := List.length_append
  have hbefore (n : Nat) (hn : n < edits.length) (hn' : n < (edits ++ [e]).length) :
      (edits ++ [e]).take n = edits.take n ∧ (edits ++ [e]).get ⟨n, hn'⟩ = edits.get ⟨n, hn⟩ :=
    ⟨List.take_append_of_le_length (Nat.le_of_lt hn), List.getElem_append_left hn⟩
  have hlast (hn : edits.length < (edits ++ [e]).length) :
      (edits ++ [e]).take edits.length = edits ∧ (edits ++ [e]).get ⟨edits.length, hn⟩ = e :=
    ⟨List.take_left, List.getElem_concat_length rfl hn⟩
  refine ⟨fun ⟨⟨n, hn⟩, hP⟩ => ?_, ?_⟩
  · have hP : P ((edits ++ [e]).take n) ((edits ++ [e]).get ⟨n, hn⟩) := hP
    by_cases hlt : n < edits.length
    · obtain ⟨htake, hget⟩ := hbefore n hlt hn
      rw [htake, hget] at hP
      exact .inl ⟨⟨n, hlt⟩, hP⟩
    · obtain rfl : n = edits.length := by omega
      rw [(hlast hn).1, (hlast hn).2] at hP
      exact .inr hP
  · rintro (⟨⟨n, hn⟩, hP⟩ | hP)
    · have hn' : n < (edits ++ [e]).length := by omega
      obtain ⟨htake, hget⟩ := hbefore n hn hn'
      refine ⟨⟨n, hn'⟩, ?_⟩
      show P ((edits ++ [e]).take n) ((edits ++ [e]).get ⟨n, hn'⟩)
      rwa [htake, hget]
    · have hn : edits.length < (edits ++ [e]).length := by omega
      refine ⟨⟨edits.length, hn⟩, ?_⟩
      show P ((edits ++ [e]).take edits.length) ((edits ++ [e]).get ⟨edits.length, hn⟩)
      rwa [(hlast hn).1, (hlast hn).2]

/-- **The place is closed** by one of the edits. -/
def Closed (edits : List Edit) (p : Nat) : Prop :=
  SomeArrives (fun before e => Closes before e p) edits

instance (edits : List Edit) (p : Nat) : Decidable (Closed edits p) :=
  inferInstanceAs (Decidable (SomeArrives _ _))

/-- An insertion at a place that the edits before it have closed. -/
def InsertsAtClosed (before : List Edit) (e : Edit) : Prop := e.length = 0 ∧ Closed before e.offset

instance (before : List Edit) (e : Edit) : Decidable (InsertsAtClosed before e) :=
  inferInstanceAs (Decidable (_ ∧ _))

/-- A closed place stays closed, and one more edit may close it. -/
theorem closed_concat_iff : Closed (edits ++ [e]) p ↔ Closed edits p ∨ Closes edits e p :=
  someArrives_concat

theorem Outside.of_concat (h : Outside (edits ++ [e]) p) : Outside edits p :=
  fun d hd => h d (List.mem_append_left _ hd)

/-- An edit that goes together with all before it starts outside of them. -/
theorem outside_of_compatible (he : e.length = 0) (h : ∀ d ∈ edits, Compatible d e) :
    Outside edits e.offset := by
  intro d hd hinside
  have hes := e.stop_eq
  have hds := d.stop_eq
  have hover : d.overlaps e = true := by
    rw [overlaps_iff]
    split <;> omega
  have := h d hd hover
  omega

end Edit

/-! ## What an entry stands for -/

/-- **A stretch of edits makes `x` of its range.** -/
structure Renders (source : String) (x : Edit) (l : List Edit) : Prop where
  between : Between x.offset l x.stop
  text : x.text = editedBetween source x.offset l x.stop

theorem renders_self (source : String) (x : Edit) : Renders source x [x] := by
  refine ⟨⟨Nat.le_refl _, Nat.le_refl _⟩, ?_⟩
  rw [editedBetween, editedBetween, slice_self, slice_self, String.empty_append,
    String.append_empty]

/-- **An entry stands for a stretch of edits**: insertions at its offset, a replacement as it
arrived, or a group whose inner places are closed. -/
inductive StandsFor (source : String) (edits : List Edit) : Edit → List Edit → Prop
  | insertions {x : Edit} {l : List Edit} (hlength : x.length = 0) (hsize : 0 < x.size)
      (hfirst : ∃ d ∈ edits, d.length = 0 ∧ d.offset = x.offset) (hrenders : Renders source x l) :
      StandsFor source edits x l
  | replacement {x : Edit} (hx : x ∈ edits) (hlength : x.length ≠ 0) : StandsFor source edits x [x]
  | group {x : Edit} {l : List Edit} (hlength : x.length ≠ 0) (hsize : 0 < x.size)
      (hcovered : ∀ k, x.offset ≤ k → k < x.stop → ∃ d ∈ edits, d.offset ≤ k ∧ k < d.stop)
      (hclosed : ∀ p, Outside edits p → x.offset ≤ p → p < x.stop → Closed edits p)
      (hrenders : Renders source x l) : StandsFor source edits x l

namespace StandsFor

theorem renders (h : StandsFor source edits x l) : Renders source x l := by
  cases h with
  | insertions _ _ _ hrenders => exact hrenders
  | replacement _ _ => exact renders_self source x
  | group _ _ _ _ hrenders => exact hrenders

/-- An entry stands for the same stretch when one more edit has arrived. -/
theorem concat (h : StandsFor source edits x l) : StandsFor source (edits ++ [e]) x l := by
  have hmono : ∀ {P : Edit → Prop}, (∃ d ∈ edits, P d) → ∃ d ∈ edits ++ [e], P d :=
    fun ⟨d, hd, hP⟩ => ⟨d, List.mem_append_left _ hd, hP⟩
  cases h with
  | insertions hlength hsize hfirst hrenders =>
    exact .insertions hlength hsize (hmono hfirst) hrenders
  | replacement hx hlength => exact .replacement (List.mem_append_left _ hx) hlength
  | group hlength hsize hcovered hclosed hrenders =>
    exact .group hlength hsize (fun k hk hk' => hmono (hcovered k hk hk'))
      (fun p hp hk hk' => closed_concat_iff.mpr (.inl (hclosed p hp.of_concat hk hk'))) hrenders

/-- An entry of insertions has a text, and one of them is the first. -/
theorem size_pos_of_insertion (h : StandsFor source edits x l) (hlength : x.length = 0) :
    0 < x.size ∧ ∃ d ∈ edits, d.length = 0 ∧ d.offset = x.offset := by
  cases h with
  | insertions _ hsize hfirst _ => exact ⟨hsize, hfirst⟩
  | replacement _ hlength' => exact absurd hlength hlength'
  | group hlength' _ _ _ _ => exact absurd hlength hlength'

/-- **An entry that overlaps an arrival** where the place is open holds insertions at its offset. -/
theorem offset_eq_of_overlaps (h : StandsFor source edits x l) (he : ∀ d ∈ edits, Compatible d e)
    (hopen : ¬ InsertsAtClosed edits e) (hover : x.overlaps e = true) :
    x.length = 0 ∧ e.length = 0 ∧ x.offset = e.offset := by
  have hxs := x.stop_eq
  have hes := e.stop_eq
  rw [overlaps_iff] at hover
  cases h with
  | insertions hlength _ hfirst _ =>
    by_cases hins : e.length = 0
    · rw [if_pos ⟨hlength, hins⟩] at hover
      exact ⟨hlength, hins, hover⟩
    · rw [if_neg fun h => hins h.2] at hover
      obtain ⟨d, hd, hdlength, hdx⟩ := hfirst
      have hds := d.stop_eq
      have := he d hd (by rw [overlaps_iff, if_neg fun h => hins h.2]; omega)
      omega
  | replacement hx hlength =>
    have := he x hx (by rw [overlaps_iff]; exact hover)
    omega
  | group hlength _ hcovered hclosed _ =>
    rw [if_neg fun h => hlength h.1] at hover
    by_cases hins : e.length = 0
    · exact absurd (hclosed e.offset (outside_of_compatible hins he) (by omega) (by omega))
        fun hclosed => hopen ⟨hins, hclosed⟩
    · obtain ⟨d, hd, hdk, hdk'⟩ := hcovered (max x.offset e.offset) (by omega) (by omega)
      have hds := d.stop_eq
      have := he d hd (by rw [overlaps_iff, if_neg fun h => hins h.2]; omega)
      omega

/-- What an entry in front of an arrival stands for is not preceded by it. -/
theorem precedes_eq_false (h : StandsFor source edits x l) (hx : x.stop ≤ e.offset) :
    ∀ d ∈ l, e.precedes d = false := by
  intro d hd
  have hmem := h.renders.between.mem hd
  have hds := d.stop_eq
  rw [Bool.eq_false_iff, ne_eq, precedes_iff]
  omega

/-- **What an entry behind an arrival stands for** is preceded by it where the place is open. -/
theorem precedes (h : StandsFor source edits x l) (he : ∀ d ∈ edits, Compatible d e)
    (hopen : ¬ InsertsAtClosed edits e) (hx : Apart e x) :
    ∀ d ∈ l, e.precedes d = true := by
  intro d hd
  have hmem := h.renders.between.mem hd
  rw [apart_iff] at hx
  have hes := e.stop_eq
  have hxs := x.stop_eq
  rw [precedes_iff]
  rcases hx.2 with hlt | ⟨hins, hlength⟩
  · omega
  · cases h with
    | insertions hlength' _ _ _ => exact absurd hlength' hlength
    | replacement _ _ =>
      obtain rfl := List.mem_singleton.mp hd
      omega
    | group _ _ _ hclosed _ =>
      by_contra hnot
      exact hopen ⟨hins,
        hclosed e.offset (outside_of_compatible hins he) (by omega) (by omega)⟩

end StandsFor

/-! ## What the entries stand for -/

/-- **The entries stand for the edits**, stretch by stretch. -/
inductive Folded (source : String) (edits : List Edit) : List Edit → List Edit → Prop
  | nil : Folded source edits [] []
  | cons {x : Edit} {B l m : List Edit} (hx : StandsFor source edits x B)
      (hl : Folded source edits l m) : Folded source edits (x :: l) (B ++ m)

namespace Folded

theorem append (h : Folded source edits l m) (h' : Folded source edits l' m') :
    Folded source edits (l ++ l') (m ++ m') := by
  induction h with
  | nil => exact h'
  | cons hx _ ih =>
    rw [List.append_assoc]
    exact .cons hx ih

theorem exists_append : ∀ {l m : List Edit}, Folded source edits (l ++ l') m →
    ∃ m₁ m₂, m = m₁ ++ m₂ ∧ Folded source edits l m₁ ∧ Folded source edits l' m₂
  | [], m, h => ⟨[], m, rfl, .nil, h⟩
  | x :: l, _, h => by
      obtain - | ⟨hx, hl⟩ := h
      obtain ⟨m₁, m₂, rfl, h₁, h₂⟩ := exists_append (l := l) hl
      exact ⟨_, m₂, (List.append_assoc _ _ _).symm, .cons hx h₁, h₂⟩

theorem concat (h : Folded source edits l m) : Folded source (edits ++ [e]) l m := by
  induction h with
  | nil => exact .nil
  | cons hx _ ih => exact .cons hx.concat ih

theorem standsFor_of_singleton (h : Folded source edits [x] m) : StandsFor source edits x m := by
  obtain - | ⟨hx, hl⟩ := h
  cases hl
  rwa [List.append_nil]

theorem singleton (h : StandsFor source edits x m) : Folded source edits [x] m := by
  have := Folded.cons h .nil
  rwa [List.append_nil] at this

/-- What holds of all edits that an entry stands for holds of all edits. -/
theorem forall_mem {P : Edit → Prop} (h : Folded source edits l m)
    (hP : ∀ x ∈ l, ∀ B, StandsFor source edits x B → ∀ d ∈ B, P d) : ∀ d ∈ m, P d := by
  induction h with
  | nil => exact fun d hd => absurd hd List.not_mem_nil
  | @cons x B l m hx _ ih =>
    intro d hd
    rcases List.mem_append.mp hd with hd | hd
    · exact hP x List.mem_cons_self B hx d hd
    · exact ih (fun y hy => hP y (List.mem_cons_of_mem x hy)) d hd

/-- The edits lie where the entries do. -/
theorem between (h : Folded source edits l m) (hl : Between i l j) : Between i m j := by
  induction h generalizing i with
  | nil => exact hl
  | cons hx _ ih => exact (Between.append (l := []) hl.1 hx.renders.between).append (ih hl.2)

/-- **The edits make the same text as the entries.** -/
theorem editedBetween_eq (h : Folded source edits l m) (hi : IsBoundary source i)
    (hj : IsBoundary source j) (hl : ∀ x ∈ l, OnBoundaries source x)
    (hm : ∀ d ∈ m, OnBoundaries source d) (hbetween : Between i l j) :
    editedBetween source i l j = editedBetween source i m j := by
  induction h generalizing i with
  | nil => rfl
  | @cons x B l m hx hfold ih =>
    obtain ⟨hstart, hstop⟩ := hl x List.mem_cons_self
    have hB : ∀ d ∈ B, OnBoundaries source d := fun d hd => hm d (List.mem_append_left m hd)
    have hrest := ih hstop (fun y hy => hl y (List.mem_cons_of_mem x hy))
      (fun d hd => hm d (List.mem_append_right B hd)) hbetween.2
    have hrange := hx.renders.between
    rw [editedBetween, hx.renders.text, hrest,
      editedBetween_append hi hstop hj hm (Between.append (l := []) hbetween.1 hrange)
        (hfold.between hbetween.2),
      editedBetween_eq_append hi hstart hstop hB hbetween.1 hrange]

/-- What a chain covers is replaced byte by byte, and its places are closed unless only deletions
stand in front of them. -/
theorem covered (h : Folded source edits l m) (hchain : Chained i l) (hk : i ≤ k)
    (hk' : k < reach i l) :
    (∃ d ∈ edits, d.offset ≤ k ∧ k < d.stop) ∧
      (Outside edits k → Closed edits k ∨
        ∀ q < k, i ≤ q → ∃ d ∈ edits, d.size = 0 ∧ d.offset ≤ q ∧ q < d.stop) := by
  induction h generalizing i with
  | nil => exact absurd hk' (Nat.not_lt.mpr hk)
  | @cons x B l m hx hfold ih =>
    obtain ⟨rfl, hsize, hrest⟩ := hchain
    have hxs := x.stop_eq
    by_cases hin : k < x.stop
    · cases hx with
      | insertions hlength _ _ _ => omega
      | replacement hx _ =>
        refine ⟨⟨x, hx, hk, hin⟩, fun hout => .inr fun q hq hq' => ?_⟩
        have := hout x hx
        omega
      | group _ _ hcovered hclosed _ =>
        exact ⟨hcovered k hk hin, fun hout => .inl (hclosed k hout hk hin)⟩
    · have hne : l ≠ [] := by
        rintro rfl
        exact hin hk'
      obtain ⟨hcovered, hclosed⟩ := ih hrest (Nat.not_lt.mp hin) hk'
      refine ⟨hcovered, fun hout => (hclosed hout).imp_right fun hdeleted q hq hq' => ?_⟩
      by_cases hqx : q < x.stop
      · have hzero := hsize hne
        cases hx with
        | insertions _ hpos _ _ => omega
        | replacement hx _ => exact ⟨x, hx, hzero, hq', hqx⟩
        | group _ hpos _ _ _ => omega
      · exact hdeleted q hq (Nat.not_lt.mp hqx)

/-- An insertion put behind a stretch at its offset, in front of what a chain stands for. -/
theorem renders (h : Folded source edits C m) (hx : Renders source x l) (hlength : x.length = 0)
    (hfits : Fits source (x :: C)) (hins : e.length = 0) (hxe : x.offset = e.offset)
    (hb : ∀ d ∈ l ++ e :: m, OnBoundaries source d) :
    Renders source ⟨x.offset, reach x.offset C - x.offset,
      x.text ++ e.text ++ editedBetween source x.offset C (reach x.offset C)⟩ (l ++ e :: m) := by
  have hxs : x.stop = x.offset := insertion_stop hlength
  have hes : e.stop = x.offset := by rw [insertion_stop hins, hxe]
  have hstart : IsBoundary source x.offset := (hfits.onBoundaries x List.mem_cons_self).1
  have hC : ∀ c ∈ C, OnBoundaries source c := fun c hc =>
    hfits.onBoundaries c (List.mem_cons_of_mem x hc)
  have hend := isBoundary_reach hstart hC
  have hchain : Between x.offset C (reach x.offset C) := by
    have hxC : Between x.stop C source.utf8ByteSize := hfits.between.2
    rw [hxs] at hxC
    exact hxC.reach
  have hfront : Between x.offset l x.offset := by
    have := hx.between
    rwa [hxs] at this
  have hback : Between x.offset (e :: m) (reach x.offset C) :=
    ⟨Nat.le_of_eq hxe, by rw [hes]; exact h.between hchain⟩
  have hm : ∀ d ∈ m, OnBoundaries source d := fun d hd =>
    hb d (List.mem_append_right l (List.mem_cons_of_mem e hd))
  have hstop : ∀ text : String,
      (⟨x.offset, reach x.offset C - x.offset, text⟩ : Edit).stop = reach x.offset C := fun _ =>
    Nat.add_sub_of_le hchain.le
  refine ⟨?_, ?_⟩ <;> rw [hstop]
  · exact hfront.append hback
  · rw [editedBetween_append hstart hstart hend hb hfront hback, editedBetween, hes, ← hxe,
      slice_self, String.empty_append, ← h.editedBetween_eq hstart hend hC hm hchain, hx.text, hxs,
      String.append_assoc]

/-- **The stretch of a folded insertion**: what stood at its offset, the insertion, and what the
chain behind stands for. -/
theorem standsFor (h : Folded source edits C m) (hx : StandsFor source edits x l)
    (hlength : x.length = 0) (hchain : Chained x.offset C) (hfits : Fits source (x :: C))
    (hins : e.length = 0) (hxe : x.offset = e.offset)
    (hb : ∀ d ∈ l ++ e :: m, OnBoundaries source d) :
    StandsFor source (edits ++ [e]) ⟨x.offset, reach x.offset C - x.offset,
      x.text ++ e.text ++ editedBetween source x.offset C (reach x.offset C)⟩ (l ++ e :: m) := by
  have hrenders := h.renders hx.renders hlength hfits hins hxe hb
  obtain ⟨hpos, hfirst⟩ := hx.size_pos_of_insertion hlength
  have hsize : 0 < (x.text ++ e.text ++
      editedBetween source x.offset C (reach x.offset C)).utf8ByteSize := by
    rw [String.utf8ByteSize_append, String.utf8ByteSize_append]
    rw [size] at hpos
    omega
  by_cases hempty : reach x.offset C - x.offset = 0
  · obtain ⟨d, hd, hfirst⟩ := hfirst
    exact .insertions hempty hsize ⟨d, List.mem_append_left _ hd, hfirst⟩ hrenders
  · have hlt : ∀ {p : Nat}, p < x.offset + (reach x.offset C - x.offset) →
        p < reach x.offset C := by
      intro p hp
      omega
    refine .group hempty hsize (fun k hk hk' => ?_) (fun p hout hp hp' => ?_) hrenders
    · obtain ⟨d, hd, hdk⟩ := (h.covered hchain hk (hlt hk')).1
      exact ⟨d, List.mem_append_left _ hd, hdk⟩
    · obtain ⟨⟨d, hd, hdp, hdp'⟩, hclosed⟩ := h.covered hchain hp (hlt hp')
      have hout := hout.of_concat
      rcases hclosed hout with hclosed | hdeleted
      · exact closed_concat_iff.mpr (.inl hclosed)
      · refine closed_concat_iff.mpr (.inr ⟨hins, ?_, ?_⟩)
        · rwa [← hxe]
        · have hds := d.stop_eq
          have := hout d hd
          rw [← hxe]
          exact ⟨hp, ⟨d, hd, by omega, by omega⟩, hdeleted⟩

/-- **Where an arrival goes**, when the entries are cut into those that end in front of it and those
apart from it behind. -/
theorem exists_arrange_concat (h : Folded source edits (A ++ C) (arrange source edits))
    (hon : OnBoundaries source e) (he : ∀ d ∈ edits, Compatible d e)
    (hopen : ¬ InsertsAtClosed edits e) (hA : ∀ a ∈ A, a.stop ≤ e.offset)
    (hC : ∀ c ∈ C, Apart e c) :
    ∃ l m, Folded source edits A l ∧ Folded source edits C m ∧
      arrange source (edits ++ [e]) = l ++ e :: m := by
  obtain ⟨l, m, hcut, hl, hm⟩ := h.exists_append
  refine ⟨l, m, hl, hm, arrange_concat_eq hon.1.le_size hcut ?_ ?_⟩
  · exact hl.forall_mem fun x hx B hB => hB.precedes_eq_false (hA x hx)
  · exact hm.forall_mem fun x hx B hB => hB.precedes he hopen (hC x hx)

end Folded

/-! ## One more edit -/

/-- **The set holds the edits**: its entries fit the text and stand for the edits in their order. -/
structure Keeps (source : String) (edits : List Edit) (set : EditSet) : Prop where
  fits : Fits source set.entries
  folded : Folded source edits set.entries (arrange source edits)

namespace Keeps

variable {set' : EditSet}

/-- An edit that overlaps no entry comes in as it is. -/
theorem exists_add_new (h : Keeps source edits set) (hon : OnBoundaries source e)
    (he : ∀ d ∈ edits, Compatible d e) (htext : e.length = 0 → 0 < e.size)
    (hopen : ¬ InsertsAtClosed edits e)
    (hover : ∀ x ∈ set.entries, x.overlaps e = false) :
    ∃ set', set.add source e = .ok set' ∧ Keeps source (edits ++ [e]) set' := by
  obtain ⟨A, C, hAC, hA, hC, hadd⟩ := add_of_not_overlaps h.fits hon hover
  have hfolded := h.folded
  rw [hAC] at hfolded
  obtain ⟨l, m, hl, hm, harrange⟩ :=
    hfolded.exists_arrange_concat hon he hopen (fun a ha => (hA a ha).2) hC
  have hmem : e ∈ edits ++ [e] := List.mem_append_right _ List.mem_cons_self
  have hself : StandsFor source (edits ++ [e]) e [e] := by
    by_cases hins : e.length = 0
    · exact .insertions hins (htext hins) ⟨e, hmem, hins, rfl⟩ (renders_self source e)
    · exact .replacement hmem hins
  refine ⟨_, hadd, (add_fits h.fits hadd).1, ?_⟩
  rw [harrange]
  exact hl.concat.append (.cons hself hm.concat)

/-- **An insertion at the offset of earlier ones** goes behind their text. -/
theorem exists_add_at (h : Keeps source edits set) (hedits : ∀ d ∈ edits, OnBoundaries source d)
    (hon : OnBoundaries source e)
    (he : ∀ d ∈ edits, Compatible d e) (hopen : ¬ InsertsAtClosed edits e)
    (hentries : set.entries = A ++ x :: C) (hx : x.length = 0) (hins : e.length = 0)
    (hxe : x.offset = e.offset) :
    ∃ set', set.add source e = .ok set' ∧ Keeps source (edits ++ [e]) set' := by
  have hfits : Fits source (A ++ x :: C) := hentries ▸ h.fits
  have hfolded := h.folded
  rw [hentries, List.append_cons] at hfolded
  obtain ⟨-, hxC, hcross⟩ := List.pairwise_append.mp hfits.apart
  have hA : ∀ a ∈ A, a.stop ≤ x.offset := fun a ha => (hcross a ha x List.mem_cons_self).2
  have hC : ∀ c ∈ C, Apart e c := fun c hc => by
    have hxc := apart_iff.mp ((List.pairwise_cons.mp hxC).1 c hc)
    rw [insertion_stop hx] at hxc
    rw [apart_iff, insertion_stop hins]
    omega
  obtain ⟨l, m, hl, hm, harrange⟩ :=
    hfolded.exists_arrange_concat hon he hopen (fun a ha => by
      rcases List.mem_append.mp ha with ha | ha
      · exact hxe ▸ hA a ha
      · rw [List.mem_singleton.mp ha, insertion_stop hx, hxe]) hC
  obtain ⟨lA, lx, rfl, hlA, hlx⟩ := hl.exists_append
  have hstands := hlx.standsFor_of_singleton
  have hpos := (hstands.size_pos_of_insertion hx).1
  obtain ⟨B, D, rfl, hchain, hadd⟩ :=
    add_insertion_chain h.fits hins hentries hx hxe fun q hq => by
      have := placed_stop_le (g := 0) hfits.between.left_of_append_cons (Int.le_refl 0) q hq
      omega
  obtain ⟨mB, mD, rfl, hmB, hmD⟩ := hm.exists_append
  have hfitsB : Fits source (x :: B) := hfits.sublist
    (((List.sublist_append_left B D).cons_cons x).trans (List.sublist_append_right A _))
  have hb : ∀ d ∈ lx ++ e :: mB, OnBoundaries source d := fun d hd => by
    have harr : d ∈ arrange source (edits ++ [e]) := by
      rw [harrange]
      simp only [List.mem_append, List.mem_cons] at hd ⊢
      tauto
    rcases List.mem_append.mp (mem_of_mem_arrange harr) with hd | hd
    · exact hedits d hd
    · rwa [List.mem_singleton.mp hd]
  have hmerged := hmB.standsFor hstands hx hchain hfitsB hins hxe hb
  refine ⟨_, hadd, (add_fits h.fits hadd).1, ?_⟩
  have hall := hlA.concat.append (.cons hmerged hmD.concat)
  rw [harrange]
  simpa only [List.append_assoc, List.cons_append] using hall

/-- **One more edit** that goes with the others and inserts at no closed place is accepted. -/
theorem exists_add (h : Keeps source edits set) (hedits : ∀ d ∈ edits, OnBoundaries source d)
    (hon : OnBoundaries source e)
    (he : ∀ d ∈ edits, Compatible d e) (htext : e.length = 0 → 0 < e.size)
    (hopen : ¬ InsertsAtClosed edits e) :
    ∃ set', set.add source e = .ok set' ∧ Keeps source (edits ++ [e]) set' := by
  by_cases hover : ∃ x ∈ set.entries, x.overlaps e = true
  · obtain ⟨x, hx, hxe⟩ := hover
    obtain ⟨A, C, hentries⟩ := List.append_of_mem hx
    have hfolded := h.folded
    rw [hentries] at hfolded
    obtain ⟨_, _, -, -, hxC⟩ := hfolded.exists_append
    obtain - | ⟨hstands, -⟩ := hxC
    obtain ⟨hlength, hins, hoffset⟩ := hstands.offset_eq_of_overlaps he hopen hxe
    exact h.exists_add_at hedits hon he hopen hentries hlength hins hoffset
  · refine h.exists_add_new hon he htext hopen fun x hx => ?_
    rw [Bool.eq_false_iff]
    exact fun hxe => hover ⟨x, hx, hxe⟩

end Keeps

/-! ## All edits in turn -/

/-- **Edits that go together**, in any order of arrival: all of them are accepted and kept, as long
as no insertion arrives at a place that an earlier one has closed. -/
theorem exists_keeps (edits : List Edit) (hon : ∀ e ∈ edits, OnBoundaries source e)
    (htogether : edits.Pairwise Compatible) (htext : ∀ e ∈ edits, e.length = 0 → 0 < e.size)
    (hopen : ¬ SomeArrives InsertsAtClosed edits) :
    ∃ set, ParsedFile.addAll source {} edits = .ok set ∧ Keeps source edits set := by
  induction edits using List.reverseRecOn with
  | nil =>
    refine ⟨{}, rfl, fits_nil source, ?_⟩
    rw [arrange_nil]
    exact .nil
  | append_singleton edits e ih =>
    obtain ⟨hedits, -, hcross⟩ := List.pairwise_append.mp htogether
    have hmem : e ∈ edits ++ [e] := List.mem_append_right _ List.mem_cons_self
    have hons : ∀ d ∈ edits, OnBoundaries source d := fun d hd => hon d (List.mem_append_left _ hd)
    obtain ⟨hopenEdits, hopenLast⟩ := not_or.mp (mt someArrives_concat.mpr hopen)
    obtain ⟨set, hall, hkeeps⟩ :=
      ih hons hedits (fun d hd => htext d (List.mem_append_left _ hd)) hopenEdits
    obtain ⟨set', hadd, hkeeps'⟩ := hkeeps.exists_add hons (hon e hmem)
      (fun d hd => hcross d hd e List.mem_cons_self) (htext e hmem) hopenLast
    exact ⟨set', ParsedFile.addAll_append_eq_ok hall (bind_eq_ok_iff.mpr ⟨_, hadd, rfl⟩), hkeeps'⟩

/-- **Insertions keep their order between replacements.**  Take edits of a text of which only
insertions claim the same place, every insertion with a text, in any order of arrival.  When no
insertion arrives at a place where a replacement starts and which an earlier arrival has closed,
being the second insertion at an offset that the replacement touches, then every edit is accepted,
and the edited text has at each offset what was inserted there in the order of arrival, followed by
what replaces the text from there on, or else by the text itself. -/
theorem exists_addAll_arranged (source : String) (edits : List Edit)
    (hon : ∀ e ∈ edits, OnBoundaries source e) (htogether : edits.Pairwise Compatible)
    (htext : ∀ e ∈ edits, e.length = 0 → 0 < e.size)
    (hopen : ¬ SomeArrives InsertsAtClosed edits) :
    ∃ set edited, ParsedFile.addAll source {} edits = .ok set ∧ set.apply source = .ok edited ∧
      applyAll source (arrange source edits) = .ok edited := by
  obtain ⟨set, hall, hkeeps⟩ := exists_keeps edits hon htogether htext hopen
  have harrange : ∀ d ∈ arrange source edits, OnBoundaries source d := fun d hd =>
    hon d (mem_of_mem_arrange hd)
  refine ⟨set, _, hall, applyAll_eq_ok hkeeps.fits, ?_⟩
  rw [hkeeps.folded.editedBetween_eq (isBoundary_zero source) (isBoundary_size source)
    hkeeps.fits.onBoundaries harrange hkeeps.fits.between]
  exact applyFrom_eq_ok harrange (hkeeps.folded.between hkeeps.fits.between)

/-- Two insertions in front of a replacement that came before them, and one behind it. -/
theorem addAll_two_insertions :
    ∃ set edited, ParsedFile.addAll "x=1;" {}
        [⟨2, 1, "2"⟩, .insertion 2 "A", .insertion 3 "D", .insertion 2 "B"] = .ok set ∧
      set.apply "x=1;" = .ok edited ∧ edited = "x=AB2D;" := by
  obtain ⟨set, edited, hall, happly, harranged⟩ := exists_addAll_arranged "x=1;"
    [⟨2, 1, "2"⟩, .insertion 2 "A", .insertion 3 "D", .insertion 2 "B"] (by decide +kernel)
    (by decide +kernel) (by decide +kernel) (by decide +kernel)
  refine ⟨set, edited, hall, happly, Except.ok.inj (harranged.symm.trans ?_)⟩
  decide +kernel

/-- **The third insertion in front of a replacement** that came before the second one: it goes to
the front. -/
theorem addAll_third_insertion :
    ∃ set, [⟨2, 1, "2"⟩, .insertion 2 "A", .insertion 2 "B", .insertion 2 "C"].Pairwise Compatible ∧
      ParsedFile.addAll "x=1;" {}
        [⟨2, 1, "2"⟩, .insertion 2 "A", .insertion 2 "B", .insertion 2 "C"] = .ok set ∧
      set.apply "x=1;" = .ok "x=CAB2;" ∧
      applyAll "x=1;" (arrange "x=1;"
        [⟨2, 1, "2"⟩, .insertion 2 "A", .insertion 2 "B", .insertion 2 "C"]) = .ok "x=ABC2;" := by
  refine ⟨⟨[.insertion 2 "C", ⟨2, 1, "AB2"⟩], 4⟩, ?_, ?_, ?_, ?_⟩ <;> decide +kernel

end ProbeWeaver
