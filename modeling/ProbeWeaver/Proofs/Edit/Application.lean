import ProbeWeaver.Proofs.Edit.Chains

/-!
# Proofs/Edit/Application — which lists of edits are carried out, and which are not

`applyAll` walks the list once with a cursor and looks at no more than one edit at a time.  What it
accepts is a property of the list as a whole (`IsOrderly`), what it gives is the text with pieces of
it exchanged (`Edit.Rewrites`), and what it refuses is refused for the first edit that is out of
place (`Offends`).

* `applyAll_spec` — success, its text and its size, and the fault of each failure.
-/

namespace ProbeWeaver

open Text Edit

variable {source text pre rest : String} {i j cursor : Nat} {e : Edit} {edits l : List Edit}
  {fault : EditFault}

/-! ## Lists in order -/

/-- **The edits are in range, in order and between characters.** -/
structure IsOrderly (source : String) (edits : List Edit) : Prop where
  within : ∀ e ∈ edits, e.stop ≤ source.utf8ByteSize
  ordered : edits.IsChain fun a b => a.stop ≤ b.offset
  onBoundaries : ∀ e ∈ edits, OnBoundaries source e

/-- Edits behind another one, as a relation between neighbours. -/
theorem between_stop_iff : ∀ {e : Edit} {l : List Edit}, Between e.stop l j ↔
    (e.stop ≤ j ∧ ∀ d ∈ l, d.stop ≤ j) ∧ (e :: l).IsChain fun a b => a.stop ≤ b.offset
  | e, [] => by simp [Between]
  | e, d :: l => by
      rw [Between, between_stop_iff, List.isChain_cons_cons, List.forall_mem_cons]
      constructor
      · rintro ⟨hed, hl, hchain⟩
        exact ⟨⟨Nat.le_trans hed (Nat.le_trans d.offset_le_stop hl.1), hl⟩, hed, hchain⟩
      · rintro ⟨⟨-, hl⟩, hed, hchain⟩
        exact ⟨hed, hl, hchain⟩

/-- **In order is one behind the other**, from the start of the text to its end. -/
theorem isOrderly_iff : IsOrderly source edits ↔
    Between 0 edits source.utf8ByteSize ∧ ∀ e ∈ edits, OnBoundaries source e := by
  cases edits with
  | nil =>
    exact ⟨fun h => ⟨Nat.zero_le _, h.onBoundaries⟩,
      fun h => ⟨fun _ he => absurd he List.not_mem_nil, .nil, h.2⟩⟩
  | cons e l =>
    rw [Between, between_stop_iff]
    constructor
    · intro h
      exact ⟨⟨Nat.zero_le _, List.forall_mem_cons.mp h.within, h.ordered⟩, h.onBoundaries⟩
    · rintro ⟨⟨-, hwithin, hordered⟩, hb⟩
      exact ⟨List.forall_mem_cons.mpr hwithin, hordered, hb⟩

/-! ## Faults -/

/-- **What is wrong with an edit** behind replaced text that ends at `cursor`.  A range past the end
is reported before disorder, and disorder before a split character. -/
inductive Offends (source : String) (cursor : Nat) (e : Edit) : EditFault → Prop where
  | outOfRange (past : source.utf8ByteSize < e.stop) :
      Offends source cursor e (.outOfRange e.offset e.stop source.utf8ByteSize)
  | unordered (within : e.stop ≤ source.utf8ByteSize) (before : e.offset < cursor) :
      Offends source cursor e (.unordered e.offset)
  | splitsCharacter (within : e.stop ≤ source.utf8ByteSize) (behind : cursor ≤ e.offset)
      (splits : ¬ OnBoundaries source e) : Offends source cursor e .splitsCharacter

/-- The fault that is found is the one the edit has. -/
theorem fault?_eq_some_iff :
    e.fault? source cursor = some fault ↔ Offends source cursor e fault := by
  constructor
  · intro h
    rw [fault?] at h
    split at h
    · next hpast =>
      obtain rfl := Option.some.inj h
      exact .outOfRange hpast
    · next hwithin =>
      split at h
      · next hbefore =>
        obtain rfl := Option.some.inj h
        exact .unordered (Nat.le_of_not_lt hwithin) hbefore
      · next hbehind =>
        split at h
        · cases h
        · next hsplits =>
          obtain rfl := Option.some.inj h
          exact .splitsCharacter (Nat.le_of_not_lt hwithin) (Nat.le_of_not_lt hbehind) hsplits
  · intro h
    cases h with
    | outOfRange past => rw [fault?, if_pos past]
    | unordered within before => rw [fault?, if_neg (Nat.not_lt.mpr within), if_pos before]
    | splitsCharacter within behind splits =>
      rw [fault?, if_neg (Nat.not_lt.mpr within), if_neg (Nat.not_lt.mpr behind)]
      exact if_neg splits

/-- An edit has no fault when it is behind the cursor and between characters. -/
theorem fault?_eq_none_iff :
    e.fault? source cursor = none ↔ cursor ≤ e.offset ∧ OnBoundaries source e := by
  constructor
  · intro h
    have hnone (fault : EditFault) : ¬ Offends source cursor e fault := fun hoffends =>
      nomatch h.symm.trans (fault?_eq_some_iff.mpr hoffends)
    have hwithin : e.stop ≤ source.utf8ByteSize :=
      Nat.le_of_not_lt fun hpast => hnone _ (.outOfRange hpast)
    have hbehind : cursor ≤ e.offset :=
      Nat.le_of_not_lt fun hbefore => hnone _ (.unordered hwithin hbefore)
    exact ⟨hbehind, Decidable.of_not_not fun hsplits =>
      hnone _ (.splitsCharacter hwithin hbehind hsplits)⟩
  · rintro ⟨hbehind, hb⟩
    exact fault?_eq_none hbehind hb

/-- One step that succeeds. -/
theorem applyFrom_cons_eq_ok_iff : applyFrom source cursor (e :: l) = .ok text ↔
    (cursor ≤ e.offset ∧ OnBoundaries source e) ∧ ∃ rest, applyFrom source e.stop l = .ok rest ∧
      text = slice source cursor e.offset ++ e.text ++ rest := by
  rw [applyFrom, ← fault?_eq_none_iff]
  cases e.fault? source cursor with
  | some found => simp
  | none =>
    cases applyFrom source e.stop l with
    | error found => simp
    | ok rest => simp [eq_comm]

/-- One step that fails, here or further on. -/
theorem applyFrom_cons_eq_error_iff : applyFrom source cursor (e :: l) = .error fault ↔
    Offends source cursor e fault ∨ (cursor ≤ e.offset ∧ OnBoundaries source e) ∧
      applyFrom source e.stop l = .error fault := by
  rw [applyFrom, ← fault?_eq_none_iff, ← fault?_eq_some_iff]
  cases e.fault? source cursor with
  | some found => simp
  | none =>
    cases applyFrom source e.stop l with
    | error found => simp
    | ok rest => simp

/-- **A failure is the fault of the first edit that has one.** -/
theorem applyFrom_eq_error_iff : ∀ {cursor : Nat} {l : List Edit},
    applyFrom source cursor l = .error fault ↔ ∃ front e back, l = front ++ e :: back ∧
      (Between cursor front (reach cursor front) ∧ ∀ d ∈ front, OnBoundaries source d) ∧
        Offends source (reach cursor front) e fault
  | _, [] => by simp [applyFrom]
  | cursor, e :: l => by
      rw [applyFrom_cons_eq_error_iff, applyFrom_eq_error_iff]
      constructor
      · rintro (hoffends | ⟨⟨hbehind, hon⟩, front, d, back, rfl, ⟨hbetween, hb⟩, hoffends⟩)
        · exact ⟨[], e, l, rfl, ⟨Nat.le_refl _, fun _ hd => absurd hd List.not_mem_nil⟩, hoffends⟩
        · exact ⟨e :: front, d, back, rfl,
            ⟨⟨hbehind, hbetween⟩, List.forall_mem_cons.mpr ⟨hon, hb⟩⟩, hoffends⟩
      · rintro ⟨front, d, back, hl, ⟨hbetween, hb⟩, hoffends⟩
        cases front with
        | nil =>
          obtain ⟨rfl, -⟩ := List.cons.inj hl
          exact .inl hoffends
        | cons a front =>
          obtain ⟨rfl, rfl⟩ := List.cons.inj hl
          obtain ⟨hon, hb⟩ := List.forall_mem_cons.mp hb
          exact .inr ⟨⟨hbetween.1, hon⟩, front, d, back, rfl, ⟨hbetween.2, hb⟩, hoffends⟩

/-! ## The text with pieces exchanged -/

/-- **The text from byte `cursor` on, before and after.**  In turn a gap that stays as it is, and
the range of an edit that gives way to the edit's text. -/
inductive Edit.Rewrites : Nat → List Edit → String → String → Prop where
  | nil {cursor : Nat} {rest : String} : Rewrites cursor [] rest rest
  | cons {cursor : Nat} {e : Edit} {edits : List Edit} {gap removed rest text : String}
      (behind : cursor + gap.utf8ByteSize = e.offset) (range : removed.utf8ByteSize = e.length)
      (tail : Rewrites e.stop edits rest text) :
      Rewrites cursor (e :: edits) (gap ++ (removed ++ rest)) (gap ++ (e.text ++ text))

/-- **What is rewritten grows by what the edits gain.** -/
theorem Edit.Rewrites.size_eq (h : Rewrites cursor edits rest text) :
    (text.utf8ByteSize : Int) = rest.utf8ByteSize + totalGrowth edits := by
  induction h with
  | nil => rw [totalGrowth_nil, Int.add_zero]
  | @cons _ e _ gap removed rest text _ range _ ih =>
    rw [totalGrowth_cons, growth, size]
    simp only [String.utf8ByteSize_append, Int.natCast_add]
    omega

/-- The pieces a text is cut into around an edit, by their sizes. -/
theorem size_append_of_cut {gap removed : String}
    (hgap : pre.utf8ByteSize + gap.utf8ByteSize = e.offset)
    (hremoved : removed.utf8ByteSize = e.length) :
    (pre ++ gap).utf8ByteSize = e.offset ∧ (pre ++ gap ++ removed).utf8ByteSize = e.stop := by
  have hoffset : (pre ++ gap).utf8ByteSize = e.offset :=
    (String.utf8ByteSize_append ..).trans hgap
  exact ⟨hoffset, by rw [String.utf8ByteSize_append, hoffset, hremoved, stop]⟩

/-- A text with a boundary behind its first part is cut there. -/
theorem exists_append_of_isBoundary (h : IsBoundary (pre ++ rest) i) (hi : pre.utf8ByteSize ≤ i) :
    ∃ gap tail, rest = gap ++ tail ∧ pre.utf8ByteSize + gap.utf8ByteSize = i := by
  obtain ⟨p, tail, hp, rfl⟩ := isBoundary_iff.mp h
  obtain ⟨gap, rfl⟩ := exists_append_of_size_le hp hi
  rw [String.append_assoc, String.append_right_inj] at hp
  exact ⟨gap, tail, hp, (String.utf8ByteSize_append ..).symm⟩

/-- **An edit behind the cursor and between characters cuts the text in three.** -/
theorem behind_onBoundaries_iff :
    pre.utf8ByteSize ≤ e.offset ∧ OnBoundaries (pre ++ rest) e ↔
      ∃ gap removed tail, rest = gap ++ (removed ++ tail) ∧
        pre.utf8ByteSize + gap.utf8ByteSize = e.offset ∧ removed.utf8ByteSize = e.length := by
  constructor
  · rintro ⟨hbehind, hstart, hstop⟩
    obtain ⟨gap, tail, rfl, hgap⟩ := exists_append_of_isBoundary hstart hbehind
    rw [← String.append_assoc] at hstop
    have hle : (pre ++ gap).utf8ByteSize ≤ e.stop := by
      rw [String.utf8ByteSize_append, hgap]
      exact e.offset_le_stop
    obtain ⟨removed, tail, rfl, hremoved⟩ := exists_append_of_isBoundary hstop hle
    rw [String.utf8ByteSize_append, hgap, stop, Nat.add_right_inj] at hremoved
    exact ⟨gap, removed, tail, rfl, hgap, hremoved⟩
  · rintro ⟨gap, removed, tail, rfl, hgap, hremoved⟩
    obtain ⟨hoffset, hstop⟩ := size_append_of_cut hgap hremoved
    refine ⟨hgap ▸ Nat.le_add_right .., ?_, ?_⟩
    · exact isBoundary_iff.mpr ⟨pre ++ gap, removed ++ tail, (String.append_assoc ..).symm, hoffset⟩
    · exact isBoundary_iff.mpr ⟨pre ++ gap ++ removed, tail, by simp only [String.append_assoc],
        hstop⟩

/-- **Carrying out edits rewrites what is behind the cursor.** -/
theorem applyFrom_eq_ok_iff : ∀ {pre rest text : String} {l : List Edit},
    applyFrom (pre ++ rest) pre.utf8ByteSize l = .ok text ↔
      Rewrites pre.utf8ByteSize l rest text
  | pre, rest, text, [] => by
      rw [applyFrom, sliceFrom_append]
      constructor
      · intro h
        obtain rfl := Except.ok.inj h
        exact .nil
      · rintro ⟨⟩
        rfl
  | pre, rest, text, e :: l => by
      -- past the cut around the edit, both sides say the same of the tail
      have hcut {gap removed tail text : String}
          (hgap : pre.utf8ByteSize + gap.utf8ByteSize = e.offset)
          (hremoved : removed.utf8ByteSize = e.length) :
          slice (pre ++ (gap ++ (removed ++ tail))) pre.utf8ByteSize e.offset = gap ∧
            (applyFrom (pre ++ (gap ++ (removed ++ tail))) e.stop l = .ok text ↔
              Rewrites e.stop l tail text) := by
        obtain ⟨hoffset, hstop⟩ := size_append_of_cut hgap hremoved
        rw [← String.append_assoc, ← hoffset, slice_append, ← String.append_assoc, ← hstop]
        exact ⟨rfl, applyFrom_eq_ok_iff⟩
      rw [applyFrom_cons_eq_ok_iff, behind_onBoundaries_iff]
      constructor
      · rintro ⟨⟨gap, removed, tail, rfl, hgap, hremoved⟩, text, htail, rfl⟩
        obtain ⟨hslice, happly⟩ := hcut hgap hremoved
        rw [hslice, String.append_assoc]
        exact .cons hgap hremoved (happly.mp htail)
      · intro h
        cases h with
        | @cons _ _ _ gap removed tail text behind range h =>
          obtain ⟨hslice, happly⟩ := hcut behind range
          exact ⟨⟨gap, removed, tail, rfl, behind, range⟩, text, happly.mpr h,
            by rw [hslice, String.append_assoc]⟩

/-! ## What is accepted -/

/-- Edits are carried out behind the cursor only when they lie there. -/
theorem between_of_applyFrom_eq_ok : ∀ {i : Nat} {l : List Edit} {text : String},
    i ≤ source.utf8ByteSize → applyFrom source i l = .ok text →
      Between i l source.utf8ByteSize ∧ ∀ e ∈ l, OnBoundaries source e
  | _, [], _, hi, _ => ⟨hi, nofun⟩
  | _, e :: l, _, _, h => by
      obtain ⟨⟨hbehind, hon⟩, rest, hrest, -⟩ := applyFrom_cons_eq_ok_iff.mp h
      obtain ⟨hbetween, hb⟩ := between_of_applyFrom_eq_ok hon.2.le_size hrest
      exact ⟨⟨hbehind, hbetween⟩, List.forall_mem_cons.mpr ⟨hon, hb⟩⟩

/-- **Exactly the lists in order are carried out.** -/
theorem exists_applyAll_eq_ok_iff :
    (∃ text, applyAll source edits = .ok text) ↔ IsOrderly source edits := by
  rw [isOrderly_iff]
  exact ⟨fun ⟨_, h⟩ => between_of_applyFrom_eq_ok (Nat.zero_le _) h,
    fun h => ⟨_, applyFrom_eq_ok h.2 h.1⟩⟩

/-- A list is in order when it ends, in order, where it ends. -/
theorem isOrderly_iff_reach : IsOrderly source edits ↔
    Between 0 edits (reach 0 edits) ∧ ∀ e ∈ edits, OnBoundaries source e := by
  rw [isOrderly_iff]
  refine and_congr_left fun hb => ⟨Between.reach, fun h => ?_⟩
  have hend : Between (reach 0 edits) [] source.utf8ByteSize :=
    (isBoundary_reach (isBoundary_zero source) hb).le_size
  have hjoined := h.append hend
  rwa [List.append_nil] at hjoined

end ProbeWeaver
