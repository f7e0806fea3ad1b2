import ProbeWeaver.Proofs.Edit.Order

/-!
# Proofs/Edit/Position — where offsets and entries stand in the edited text

`editedOffsetFrom` carries an offset of the text into the edited text, and `placeFrom` does the same
for the entries.  On a list of edits one behind the other the two agree in order: the offset of an
entry's range goes no further back than the entry (`le_editedOffsetFrom`), and an offset in front of
the end of an entry goes no further than its new text (`editedOffsetFrom_append_cons_le`).  So
offsets go into the edited text in their order (`editedOffsetFrom_mono`).

* `pairwise_placeFrom` — the texts of the entries stand in the edited text in the same order.
* `exists_offset_of_placed_stop_lt` — entries that end before a place of the edited text end before
  the offset of the text that this place stands for.
-/

namespace ProbeWeaver

open Edit

variable {i j k p q start stop : Nat} {g : Int} {e : Edit} {l m : List Edit}

/-! ## Entries in the edited text -/

@[simp] theorem placeFrom_nil (g : Int) : placeFrom g [] = [] := rfl

@[simp] theorem length_placeFrom : ∀ (g : Int) (l : List Edit), (placeFrom g l).length = l.length
  | _, [] => rfl
  | g, e :: l => by rw [placeFrom, List.length_cons, List.length_cons, length_placeFrom]

/-- The entries behind a list are placed by its total growth. -/
theorem placeFrom_append : ∀ (g : Int) (l m : List Edit),
    placeFrom g (l ++ m) = placeFrom g l ++ placeFrom (g + totalGrowth l) m
  | g, [], m => by simp
  | g, e :: l, m => by
      rw [List.cons_append, placeFrom, placeFrom, placeFrom_append, List.cons_append,
        totalGrowth_cons, Int.add_assoc]

@[simp] theorem map_edit_placeFrom : ∀ (g : Int) (l : List Edit),
    (placeFrom g l).map PlacedEdit.edit = l
  | _, [] => rfl
  | g, e :: l => by rw [placeFrom, List.map_cons, map_edit_placeFrom]

/-- The place of an entry behind others. -/
theorem mem_placeFrom_append_cons (g : Int) (l : List Edit) (e : Edit) (m : List Edit) :
    ⟨e, (e.offset + (g + totalGrowth l)).toNat⟩ ∈ placeFrom g (l ++ e :: m) := by
  rw [placeFrom_append, placeFrom]
  exact List.mem_append_right _ List.mem_cons_self

theorem getLast?_placeFrom_concat (g : Int) (l : List Edit) (e : Edit) :
    (placeFrom g (l ++ [e])).getLast? = some ⟨e, (e.offset + (g + totalGrowth l)).toNat⟩ := by
  rw [placeFrom_append, placeFrom, placeFrom_nil, List.getLast?_concat]

/-- A search over the placed entries cuts the entries in two. -/
theorem exists_cut_placeFrom (f : PlacedEdit → Bool) : ∀ (g : Int) (l : List Edit), ∃ l₁ l₂,
    l = l₁ ++ l₂ ∧ (placeFrom g l).takeWhile f = placeFrom g l₁ ∧
      (placeFrom g l).dropWhile f = placeFrom (g + totalGrowth l₁) l₂
  | g, [] => ⟨[], [], rfl, rfl, rfl⟩
  | g, e :: l => by
      by_cases he : f ⟨e, (e.offset + g).toNat⟩ = true
      · obtain ⟨l₁, l₂, hl, htake, hdrop⟩ := exists_cut_placeFrom f (g + e.growth) l
        refine ⟨e :: l₁, l₂, by rw [hl, List.cons_append], ?_, ?_⟩
        · rw [placeFrom, List.takeWhile_cons_of_pos he, htake, placeFrom]
        · rw [placeFrom, List.dropWhile_cons_of_pos he, hdrop, totalGrowth_cons, Int.add_assoc]
      · refine ⟨[], e :: l, rfl, ?_, ?_⟩
        · exact List.takeWhile_cons_of_neg he
        · rw [totalGrowth_nil, Int.add_zero]
          exact List.dropWhile_cons_of_neg he

/-- **The placed texts follow one another** as the ranges do. -/
theorem pairwise_placeFrom : ∀ {g : Int} {i : Nat} {l : List Edit}, Between i l j → 0 ≤ i + g →
    (placeFrom g l).Pairwise (fun q r => q.stop ≤ r.start) ∧
      ∀ q ∈ placeFrom g l, i + g ≤ q.start
  | g, i, [], _, _ => ⟨List.Pairwise.nil, fun _ h => absurd h List.not_mem_nil⟩
  | g, i, e :: l, hl, hg => by
      have hie := hl.1
      have hes := e.stop_eq
      have hgrow : (e.stop : Int) + (g + e.growth) = e.offset + g + e.size := by
        rw [growth]
        omega
      obtain ⟨hpairs, hbehind⟩ := pairwise_placeFrom (g := g + e.growth) hl.2 (by omega)
      rw [placeFrom]
      refine ⟨List.pairwise_cons.mpr ⟨fun q hq => ?_, hpairs⟩, fun q hq => ?_⟩
      · have := hbehind q hq
        show (e.offset + g).toNat + e.size ≤ q.start
        omega
      · rcases List.mem_cons.mp hq with rfl | hq
        · show (i : Int) + g ≤ ((e.offset + g).toNat : Nat)
          omega
        · have := hbehind q hq
          omega

/-- The new text of an entry ends where the offset behind all entries goes, or before. -/
theorem placed_stop_le : ∀ {g : Int} {i : Nat} {l : List Edit}, Between i l j → 0 ≤ i + g →
    ∀ q ∈ placeFrom g l, (q.stop : Int) ≤ j + g + totalGrowth l
  | _, _, [], _, _, _, hq => absurd hq List.not_mem_nil
  | g, i, e :: l, hl, hg, q, hq => by
      have hie := hl.1
      have hes := e.stop_eq
      have hrest := hl.2.le_add_growth
      have hgrow : (e.stop : Int) + (g + e.growth) = e.offset + g + e.size := by
        rw [growth]
        omega
      rw [totalGrowth_cons]
      rcases List.mem_cons.mp hq with rfl | hq
      · show (((e.offset + g).toNat + e.size : Nat) : Int) ≤ _
        omega
      · have := placed_stop_le (g := g + e.growth) hl.2 (by omega) q hq
        omega

/-- **Entries that end before `start` of the edited text** end before the offset of the text that
`start` stands for behind them. -/
theorem exists_offset_of_placed_stop_lt : ∀ {g : Int} {i : Nat} {l : List Edit}, Between i l j →
    0 ≤ i + g → i + g ≤ start → (∀ q ∈ placeFrom g l, q.stop < start) →
      ∃ k : Nat, (k : Int) + g + totalGrowth l = start ∧ i ≤ k ∧ (i + g < start → i < k) ∧
        ∀ e ∈ l, e.stop < k
  | g, i, [], _, _, hi, _ =>
      ⟨(start - g).toNat, by rw [totalGrowth_nil]; omega, by omega, by omega,
        fun _ h => absurd h List.not_mem_nil⟩
  | g, i, e :: l, hl, hg, _, hstop => by
      have hie := hl.1
      have hes := e.stop_eq
      have he : (e.offset + g).toNat + e.size < start := hstop _ List.mem_cons_self
      have hgrow : (e.stop : Int) + (g + e.growth) = e.offset + g + e.size := by
        rw [growth]
        omega
      obtain ⟨k, hk, -, hlt, hmem⟩ := exists_offset_of_placed_stop_lt (g := g + e.growth) hl.2
        (by omega) (by omega) fun q hq => hstop q (List.mem_cons_of_mem _ hq)
      have hek : e.stop < k := hlt (by omega)
      refine ⟨k, ?_, by omega, fun _ => by omega, fun d hd => ?_⟩
      · rw [totalGrowth_cons]
        omega
      · rcases List.mem_cons.mp hd with rfl | hd
        · exact hek
        · exact hmem d hd

/-! ## Offsets in the edited text -/

theorem size_pos_of_not_isEmpty (h : ¬ e.text.isEmpty) : 0 < e.size := by
  rw [String.isEmpty_iff_utf8ByteSize_eq_zero] at h
  exact Nat.pos_of_ne_zero h

/-- Edits that end before an offset move it by their growth. -/
theorem editedOffsetFrom_append : ∀ {g : Int} {l : List Edit}, (∀ e ∈ l, e.stop ≤ p) →
    editedOffsetFrom g p (l ++ m) = editedOffsetFrom (g + totalGrowth l) p m
  | g, [], _ => by simp
  | g, e :: l, h => by
      rw [List.cons_append, editedOffsetFrom, if_pos (h e List.mem_cons_self),
        editedOffsetFrom_append fun d hd => h d (List.mem_cons_of_mem e hd), totalGrowth_cons,
        Int.add_assoc]

/-- Edits that start behind an offset leave it where it is. -/
theorem editedOffsetFrom_of_le_head (h : ∀ e ∈ l.head?, p ≤ e.offset ∧ p < e.stop) :
    editedOffsetFrom g p l = (p + g).toNat := by
  cases l with
  | nil => rfl
  | cons e l =>
    obtain ⟨hoffset, hstop⟩ := h e rfl
    rw [editedOffsetFrom, if_neg (Nat.not_le.mpr hstop), if_neg fun h => by omega]

/-- **An offset never goes in front of the range it lies in.** -/
theorem le_editedOffsetFrom : ∀ {g : Int} {i : Nat} {l : List Edit}, Between i l j → i ≤ p →
    (i : Int) + g ≤ editedOffsetFrom g p l
  | g, i, [], _, hp => by rw [editedOffsetFrom]; omega
  | g, i, e :: l, hl, hp => by
      have hie := hl.1
      rw [editedOffsetFrom]
      split
      · next he =>
        have ih := le_editedOffsetFrom (g := g + e.growth) hl.2 he
        have hes := e.stop_eq
        rw [growth] at ih
        rw [growth]
        omega
      · split
        · next _ he =>
          split
          · omega
          · next hempty =>
            have := size_pos_of_not_isEmpty hempty
            omega
        · omega

/-- **An offset in front of the end of an edit goes no further than its new text.** -/
theorem editedOffsetFrom_append_cons_le : ∀ {g : Int} {i : Nat} {l : List Edit},
    Between i (l ++ e :: m) j → 0 ≤ i + g → p < e.stop →
      (editedOffsetFrom g p (l ++ e :: m) : Int) ≤ e.offset + g + totalGrowth l + e.size
  | g, i, [], hl, hg, hp => by
      have hie := hl.1
      rw [List.nil_append, editedOffsetFrom, if_neg (Nat.not_le.mpr hp), totalGrowth_nil]
      split
      · next he => split <;> omega
      · omega
  | g, i, d :: l, hl, hg, hp => by
      have hid := hl.1
      have hds := d.stop_eq
      have hrest := (Between.left_of_append_cons hl.2).le_add_growth
      rw [List.cons_append, editedOffsetFrom, totalGrowth_cons, growth]
      split
      · next hd =>
        have ih := editedOffsetFrom_append_cons_le (g := g + d.growth) hl.2
          (by rw [growth, size]; omega) hp
        rw [growth] at ih
        omega
      · split
        · next _ hd => split <;> omega
        · next hd hd' => omega

/-- An offset at or behind the start of an edit goes no less far than its new text. -/
theorem le_editedOffsetFrom_append_cons (hl : Between i (l ++ e :: m) j) (hp : e.offset ≤ p) :
    (e.offset : Int) + g + totalGrowth l ≤ editedOffsetFrom g p (l ++ e :: m) := by
  have hstops : ∀ d ∈ l, d.stop ≤ p := fun d hd =>
    Nat.le_trans ((Between.left_of_append_cons hl).mem hd).2 hp
  rw [editedOffsetFrom_append hstops, Int.add_assoc]
  exact le_editedOffsetFrom ⟨Nat.le_refl _, Between.right_of_append_cons hl⟩ hp

/-- In front of the end of an edit an offset goes on byte by byte, up to the last one of the new
text. -/
theorem editedOffsetFrom_cons_of_lt_stop (hp : p < e.stop) :
    editedOffsetFrom g p (e :: l) = ((min p (e.offset + (e.size - 1)) : Nat) + g).toNat := by
  rw [editedOffsetFrom, if_neg (Nat.not_le.mpr hp)]
  split
  · split
    · next hinside hempty =>
      rw [String.isEmpty_iff_utf8ByteSize_eq_zero, ← size] at hempty
      congr 2
      omega
    · next hinside hempty =>
      have := size_pos_of_not_isEmpty hempty
      congr 2
      omega
  · congr 2
    omega

/-- **Offsets go into the edited text in their order.** -/
theorem editedOffsetFrom_mono : ∀ {g : Int} {i : Nat} {l : List Edit}, Between i l j →
    0 ≤ i + g → p ≤ q → editedOffsetFrom g p l ≤ editedOffsetFrom g q l
  | g, i, [], _, _, hpq => by
      rw [editedOffsetFrom, editedOffsetFrom]
      omega
  | g, i, e :: l, hl, hg, hpq => by
      have hie := hl.1
      have hes := e.stop_eq
      have hgrow : (e.stop : Int) + (g + e.growth) = e.offset + g + e.size := by
        rw [growth]
        omega
      by_cases hq : e.stop ≤ q
      · have hbehind : editedOffsetFrom g q (e :: l) = editedOffsetFrom (g + e.growth) q l := by
          rw [editedOffsetFrom, if_pos hq]
        by_cases hp : e.stop ≤ p
        · rw [hbehind, editedOffsetFrom, if_pos hp]
          exact editedOffsetFrom_mono hl.2 (by omega) hpq
        · have hback := editedOffsetFrom_append_cons_le (l := []) hl hg (Nat.lt_of_not_le hp)
          have hfront := le_editedOffsetFrom (g := g + e.growth) hl.2 hq
          rw [List.nil_append, totalGrowth_nil] at hback
          omega
      · rw [editedOffsetFrom_cons_of_lt_stop (Nat.lt_of_not_le hq),
          editedOffsetFrom_cons_of_lt_stop (Nat.lt_of_le_of_lt hpq (Nat.lt_of_not_le hq))]
        omega

theorem EditSet.editedOffset_mono {source : String} {set : EditSet} (h : Fits source set.entries)
    (hpq : p ≤ q) : set.editedOffset p ≤ set.editedOffset q :=
  editedOffsetFrom_mono (g := 0) h.between (Int.le_refl 0) hpq

/-- **The offset of an insertion goes behind its new text.** -/
theorem editedOffsetFrom_insertion (hl : Between i (l ++ e :: m) j) (he : e.length = 0)
    (hm : ∀ d ∈ m.head?, Apart e d) :
    editedOffsetFrom g e.offset (l ++ e :: m) = (e.offset + g + totalGrowth l + e.size).toNat := by
  have hes := e.stop_eq
  have hstops : ∀ d ∈ l, d.stop ≤ e.offset := fun d hd =>
    ((Between.left_of_append_cons hl).mem hd).2
  rw [editedOffsetFrom_append hstops, editedOffsetFrom, if_pos (by omega),
    editedOffsetFrom_of_le_head, growth]
  · congr 1
    omega
  · intro d hd
    have := apart_iff.mp (hm d hd)
    have := d.stop_eq
    omega

end ProbeWeaver
