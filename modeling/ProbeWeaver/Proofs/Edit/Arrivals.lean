import ProbeWeaver.Proofs.Edit.Insertions
import ProbeWeaver.Run.Pipeline

/-!
# Proofs/Edit/Arrivals — a set of insertions as what arrived

A set that took insertions one after the other has one entry for each offset among them, and the text
there is what arrived for the offset, in order of arrival (`EditSet.Gathers`).

* `EditSet.Gathers.addAll` — insertions accepted in a row.
* `EditSet.Gathers.exists_inserted_eq` — the inserted text, what arrived at the start cut off.
-/

namespace ProbeWeaver

open Text Edit

variable {source : String} {offset : Nat} {e x : Edit} {edits more : List Edit}
  {set set' : EditSet}

/-! ## What arrived at an offset -/

/-- **The texts for an offset**, in order of arrival. -/
def textAt (edits : List Edit) (offset : Nat) : String :=
  String.join ((edits.filter (·.offset == offset)).map (·.text))

theorem textAt_append (edits more : List Edit) (offset : Nat) :
    textAt (edits ++ more) offset = textAt edits offset ++ textAt more offset := by
  rw [textAt, List.filter_append, List.map_append, String.join_append]
  rfl

theorem textAt_singleton (e : Edit) : textAt [e] e.offset = e.text := by
  have hself : [e].filter (·.offset == e.offset) = [e] := by simp
  rw [textAt, hself, List.map_cons, List.map_nil, String.join_cons, String.join_nil,
    String.append_empty]

/-- What arrived for an offset holds the text of each edit there. -/
theorem exists_textAt_eq (he : e ∈ edits) :
    ∃ before after, textAt edits e.offset = before ++ (e.text ++ after) := by
  obtain ⟨front, back, rfl⟩ := List.append_of_mem he
  refine ⟨textAt front e.offset, textAt back e.offset, ?_⟩
  rw [show front ++ e :: back = front ++ ([e] ++ back) from rfl, textAt_append, textAt_append,
    textAt_singleton]

theorem textAt_of_forall_ne (h : ∀ e ∈ edits, e.offset ≠ offset) : textAt edits offset = "" := by
  rw [textAt, List.filter_eq_nil_iff.mpr fun e he => by simpa using h e he]
  rfl

/-- What one edit puts at an offset. -/
theorem textAt_singleton_eq_ite (e : Edit) (offset : Nat) :
    textAt [e] offset = if e.offset = offset then e.text else "" := by
  split
  · next h => rw [← h, textAt_singleton]
  · next h => exact textAt_of_forall_ne fun d hd => List.mem_singleton.mp hd ▸ h

/-- What the edits for some of the offsets put at one of them. -/
theorem textAt_filter (w : Nat → Bool) (edits : List Edit) (offset : Nat) :
    textAt (edits.filter (w ·.offset)) offset = if w offset then textAt edits offset else "" := by
  split
  · next h =>
    rw [textAt, List.filter_filter, textAt]
    refine congrArg (fun l : List Edit => String.join (l.map (·.text))) (List.filter_congr fun e _ => ?_)
    by_cases heq : e.offset = offset
    · rw [heq, h, Bool.and_true]
    · rw [beq_false_of_ne heq, Bool.false_and]
  · next h =>
    refine textAt_of_forall_ne fun e he heq => h ?_
    rw [← heq]
    exact (List.mem_filter.mp he).2

/-- **The set holds what arrived**: insertions in order of their offsets, each with the texts for
its offset. -/
structure EditSet.Gathers (set : EditSet) (edits : List Edit) : Prop where
  inserts : InsertsOnly set.entries
  ascending : set.entries.Pairwise (·.offset < ·.offset)
  text : ∀ x ∈ set.entries, x.text = textAt edits x.offset
  offsets : ∀ offset, (∃ x ∈ set.entries, x.offset = offset) ↔ ∃ e ∈ edits, e.offset = offset

namespace EditSet.Gathers

theorem empty : EditSet.Gathers {} [] where
  inserts := fun _ h => absurd h List.not_mem_nil
  ascending := .nil
  text := fun _ h => absurd h List.not_mem_nil
  offsets := fun _ => iff_of_false (fun ⟨_, h, _⟩ => absurd h List.not_mem_nil)
    fun ⟨_, h, _⟩ => absurd h List.not_mem_nil

theorem ascending_of_fits (h : Fits source set.entries) (hins : InsertsOnly set.entries) :
    set.entries.Pairwise (·.offset < ·.offset) :=
  h.apart.imp_of_mem fun ha hb hapart =>
    (insertion_apart_iff (hins _ ha) (hins _ hb)).mp hapart

/-- An offset that nothing arrived for has no entry, and one that has an entry has its texts. -/
theorem textAt_append_of_ne (h : set.Gathers edits) (hx : x ∈ set.entries)
    (hne : x.offset ≠ e.offset) : x.text = textAt (edits ++ [e]) x.offset := by
  rw [textAt_append, ← h.text x hx, textAt_of_forall_ne, String.append_empty]
  intro d hd
  rw [List.mem_singleton.mp hd]
  exact Ne.symm hne

/-- The offsets of what arrived, with one more insertion. -/
theorem exists_offset_append_iff (h : set.Gathers edits) {offset : Nat} :
    (∃ d ∈ edits ++ [e], d.offset = offset) ↔
      (∃ x ∈ set.entries, x.offset = offset) ∨ e.offset = offset := by
  rw [h.offsets]
  simp only [List.mem_append, List.mem_singleton, or_and_right, exists_or, exists_eq_left]

/-- The entries around an entry are at other offsets. -/
theorem offset_ne_of_mem_around (h : set.Gathers edits) {A C : List Edit}
    (hentries : set.entries = A ++ x :: C) {y : Edit} (hy : y ∈ A ++ C) :
    y ∈ set.entries ∧ y.offset ≠ x.offset := by
  have hasc : (A ++ x :: C).Pairwise (·.offset < ·.offset) := hentries ▸ h.ascending
  obtain ⟨-, hxC, hcross⟩ := List.pairwise_append.mp hasc
  rw [hentries]
  rcases List.mem_append.mp hy with hy | hy
  · exact ⟨List.mem_append_left _ hy, Nat.ne_of_lt (hcross y hy x List.mem_cons_self)⟩
  · exact ⟨List.mem_append_right A (List.mem_cons_of_mem x hy),
      Nat.ne_of_gt ((List.pairwise_cons.mp hxC).1 y hy)⟩

/-- An insertion where there is one already goes behind it. -/
theorem add_at (h : set.Gathers edits) (hfits : Fits source set.entries) (he : e.length = 0)
    (hadd : set.add source e = .ok set') (hx : x ∈ set.entries) (hxe : x.offset = e.offset) :
    set'.Gathers (edits ++ [e]) := by
  have hfits' := (add_fits hfits hadd).1
  obtain ⟨A, C, hentries⟩ := List.append_of_mem hx
  rw [add_insertion_at hfits h.inserts he hentries hxe] at hadd
  obtain rfl := Except.ok.inj hadd
  have hins : InsertsOnly (A ++ ⟨x.offset, 0, x.text ++ e.text⟩ :: C) :=
    InsertsOnly.append_cons
      (fun y hy => h.inserts y (h.offset_ne_of_mem_around hentries hy).1) rfl
  refine ⟨hins, ascending_of_fits hfits' hins, fun y hy => ?_, fun offset => ?_⟩
  · rw [List.mem_append, List.mem_cons, or_left_comm] at hy
    rcases hy with rfl | hy
    · rw [textAt_append, ← h.text x hx, hxe, textAt_singleton]
    · obtain ⟨hy, hne⟩ := h.offset_ne_of_mem_around hentries (List.mem_append.mpr hy)
      exact h.textAt_append_of_ne hy (hxe ▸ hne)
  · have hsame : (∃ y ∈ A ++ ⟨x.offset, 0, x.text ++ e.text⟩ :: C, y.offset = offset) ↔
        ∃ y ∈ set.entries, y.offset = offset := by
      rw [hentries]
      simp only [List.mem_append, List.mem_cons, or_and_right, exists_or, exists_eq_left]
    rw [h.exists_offset_append_iff, hsame]
    exact ⟨.inl, fun hor => hor.elim id fun heq => ⟨x, hx, hxe.trans heq⟩⟩

/-- An insertion where there is none becomes an entry of its own. -/
theorem add_new (h : set.Gathers edits) (hfits : Fits source set.entries) (he : e.length = 0)
    (hadd : set.add source e = .ok set') (hnew : ∀ x ∈ set.entries, x.offset ≠ e.offset) :
    set'.Gathers (edits ++ [e]) := by
  have hfits' := (add_fits hfits hadd).1
  obtain ⟨⟨⟩, hrange, -⟩ := bind_eq_ok_iff.mp (bind_eq_ok_iff.mp hadd).choose_spec.1
  have hb := (checkRange_eq_ok_iff.mp hrange).2.1
  obtain ⟨A, C, hAC, -, -, hadd'⟩ := add_insertion_new hfits h.inserts he hb hnew
  rw [hadd'] at hadd
  obtain rfl := Except.ok.inj hadd
  have hins : InsertsOnly (A ++ e :: C) := InsertsOnly.append_cons (hAC ▸ h.inserts) he
  refine ⟨hins, ascending_of_fits hfits' hins, fun y hy => ?_, fun offset => ?_⟩
  · rw [List.mem_append, List.mem_cons, or_left_comm, ← List.mem_append, ← hAC] at hy
    rcases hy with rfl | hy
    · rw [textAt_append, textAt_of_forall_ne, String.empty_append, textAt_singleton]
      intro d hd hde
      obtain ⟨x, hx, hxe⟩ := (h.offsets _).mpr ⟨d, hd, hde⟩
      exact hnew x hx hxe
    · exact h.textAt_append_of_ne hy (hnew y hy)
  · rw [h.exists_offset_append_iff, hAC]
    simp only [List.mem_append, List.mem_cons, or_and_right, exists_or, exists_eq_left]
    exact ⟨fun hor => by rcases hor with h | h | h <;> simp [h], fun hor => by
      rcases hor with (h | h) | h <;> simp [h]⟩

/-- **One more insertion** goes behind what arrived for its offset. -/
theorem add (h : set.Gathers edits) (hfits : Fits source set.entries) (he : e.length = 0)
    (hadd : set.add source e = .ok set') : set'.Gathers (edits ++ [e]) := by
  by_cases hold : ∃ x ∈ set.entries, x.offset = e.offset
  · obtain ⟨x, hx, hxe⟩ := hold
    exact h.add_at hfits he hadd hx hxe
  · exact h.add_new hfits he hadd fun x hx hxe => hold ⟨x, hx, hxe⟩

/-- **Insertions in a row.** -/
theorem addAll : ∀ {more edits : List Edit} {set : EditSet}, set.Gathers edits →
    Fits source set.entries → (∀ e ∈ more, e.length = 0) →
      ParsedFile.addAll source set more = .ok set' →
        set'.Gathers (edits ++ more) ∧ Fits source set'.entries
  | [], edits, set, h, hfits, _, hadd => by
      obtain rfl := Except.ok.inj hadd
      rw [List.append_nil]
      exact ⟨h, hfits⟩
  | e :: more, edits, set, h, hfits, hmore, hadd => by
      obtain ⟨set₁, hfirst, hrest⟩ := bind_eq_ok_iff.mp hadd
      have hgathers := h.add hfits (hmore e List.mem_cons_self) hfirst
      rw [List.append_cons]
      exact hgathers.addAll (add_fits hfits hfirst).1
        (fun d hd => hmore d (List.mem_cons_of_mem e hd)) hrest

end EditSet.Gathers

/-- Edits are added to what the ones before them leave. -/
theorem ParsedFile.addAll_append_eq_ok {set'' : EditSet} : ∀ {edits : List Edit} {set : EditSet},
    ParsedFile.addAll source set edits = .ok set' → ParsedFile.addAll source set' more = .ok set'' →
      ParsedFile.addAll source set (edits ++ more) = .ok set''
  | [], _, hedits, hmore => by
      obtain rfl := Except.ok.inj hedits
      exact hmore
  | _ :: _, _, hedits, hmore => by
      obtain ⟨next, hnext, hedits⟩ := bind_eq_ok_iff.mp hedits
      exact bind_eq_ok_iff.mpr ⟨next, hnext, addAll_append_eq_ok hedits hmore⟩

/-- **No insertion between characters is refused.** -/
theorem ParsedFile.exists_addAll_insertions : ∀ {edits : List Edit} {set : EditSet},
    Fits source set.entries → InsertsOnly set.entries →
      (∀ e ∈ edits, e.length = 0 ∧ IsBoundary source e.offset) →
        ∃ set', ParsedFile.addAll source set edits = .ok set' ∧ Fits source set'.entries ∧
          InsertsOnly set'.entries
  | [], set, hfits, hins, _ => ⟨set, rfl, hfits, hins⟩
  | e :: edits, set, hfits, hins, hedits => by
      obtain ⟨he, hb⟩ := hedits e List.mem_cons_self
      obtain ⟨set₁, hadd, hfits₁, hins₁⟩ := exists_add_insertion hfits hins he hb
      obtain ⟨set₂, hrest, hfits₂, hins₂⟩ := ParsedFile.exists_addAll_insertions hfits₁ hins₁
        fun d hd => hedits d (List.mem_cons_of_mem e hd)
      exact ⟨set₂, bind_eq_ok_iff.mpr ⟨set₁, hadd, hrest⟩, hfits₂, hins₂⟩

/-! ## The inserted text -/

/-- **The inserted text**: the texts of the entries, one after the other. -/
def EditSet.inserted (set : EditSet) : String := String.join (set.entries.map (·.text))

theorem EditSet.Gathers.nodup_offsets (h : set.Gathers edits) :
    (set.entries.map (·.offset)).Nodup := by
  rw [List.Nodup, List.pairwise_map]
  exact h.ascending.imp Nat.ne_of_lt

/-- The start of ascending offsets comes first. -/
theorem Edit.join_map_eq_of_ascending {f : Nat → String} : ∀ {offsets : List Nat},
    offsets.Pairwise (· < ·) → (0 ∉ offsets → f 0 = "") →
      String.join (offsets.map f) = f 0 ++ String.join ((offsets.filter (0 < ·)).map f)
  | [], _, hf => by
      rw [hf List.not_mem_nil]
      rfl
  | x :: rest, hasc, hf => by
      obtain ⟨hbehind, -⟩ := List.pairwise_cons.mp hasc
      have hrest : rest.filter (0 < ·) = rest := List.filter_eq_self.mpr fun y hy =>
        decide_eq_true (Nat.zero_lt_of_lt (hbehind y hy))
      rcases Nat.eq_zero_or_pos x with rfl | hx
      · rw [List.filter_cons_of_neg (by simp), hrest, List.map_cons, String.join_cons]
      · have hall : (x :: rest).filter (0 < ·) = x :: rest := by
          rw [List.filter_cons, if_pos (decide_eq_true hx), hrest]
        have hzero : 0 ∉ x :: rest := fun h => by
          rcases List.mem_cons.mp h with rfl | h
          · exact Nat.lt_irrefl _ hx
          · exact Nat.not_lt_zero _ (hbehind 0 h)
        rw [hall, hf hzero, String.empty_append]

/-- **What arrived for the start** stands before what arrived for other offsets. -/
theorem EditSet.Gathers.exists_inserted_eq (h : set.Gathers edits) :
    ∃ offsets : List Nat, offsets.Nodup ∧
      (∀ offset, offset ∈ offsets ↔ offset ≠ 0 ∧ ∃ e ∈ edits, e.offset = offset) ∧
      set.inserted = textAt edits 0 ++ String.join (offsets.map (textAt edits)) := by
  have hmem (offset : Nat) : offset ∈ set.entries.map (·.offset) ↔
      ∃ e ∈ edits, e.offset = offset := by
    rw [List.mem_map, h.offsets]
  have hasc : (set.entries.map (·.offset)).Pairwise (· < ·) := List.pairwise_map.mpr h.ascending
  have hjoin : set.inserted = String.join ((set.entries.map (·.offset)).map (textAt edits)) := by
    rw [EditSet.inserted, List.map_map, List.map_congr_left h.text]
    rfl
  have hnodup : ((set.entries.map (·.offset)).filter (0 < ·)).Nodup :=
    List.filter_sublist.nodup h.nodup_offsets
  refine ⟨_, hnodup, fun offset => ?_,
    hjoin.trans (join_map_eq_of_ascending hasc fun hzero => ?_)⟩
  · rw [List.mem_filter, hmem, and_comm, decide_eq_true_iff, Nat.pos_iff_ne_zero]
  · exact textAt_of_forall_ne fun e he hstart => hzero ((hmem 0).mpr ⟨e, he, hstart⟩)

end ProbeWeaver
