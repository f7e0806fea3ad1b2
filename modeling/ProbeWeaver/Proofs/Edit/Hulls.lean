import Mathlib.Order.MinMax
import ProbeWeaver.Proofs.Edit.Application

/-!
# Proofs/Edit/Hulls — what a merge takes in

Offsets go into the edited text in their order, and no further than its end
(`editedOffsetFrom_le`).  So a range that is carried there tells on either side whether it starts
in front of the entries it touches and ends behind them: a merge goes back to the offsets it came
from, and no part of an untouched entry is in between.

* `EditSet.exists_merge` — the range of a merge is the smallest one around the edit and what it
  touches (`Edit.IsHull`), its text is what the edited text has there, and what is left to go wrong
  is an end of the edit inside a character of the edited text.
-/

namespace ProbeWeaver

open Text Edit

variable {source : String} {i j k p : Nat} {d e t : Edit} {l m A B C B₀ B₁ : List Edit}
  {set : EditSet}

/-! ## Offsets in order -/

/-- Behind all edits an offset is moved by their growth. -/
theorem editedOffsetFrom_of_stop_le (hl : Between 0 l j) (hp : ∀ e ∈ l, e.stop ≤ p) :
    (editedOffsetFrom 0 p l : Int) = p + totalGrowth l := by
  have hgrow := (hl.of_stop_le hp (Nat.zero_le p)).le_add_growth
  have happend := editedOffsetFrom_append (g := 0) (m := []) hp
  rw [List.append_nil, editedOffsetFrom] at happend
  omega

/-- **No offset goes past the end of the edited text.** -/
theorem editedOffsetFrom_le (hl : Between 0 l j) (hp : p ≤ j) :
    (editedOffsetFrom 0 p l : Int) ≤ j + totalGrowth l := by
  have hmono := editedOffsetFrom_mono (g := 0) hl (Int.le_refl 0) hp
  rw [← editedOffsetFrom_of_stop_le hl fun e he => (hl.mem he).2]
  exact_mod_cast hmono

/-! ## The two ends of a range -/

/-- Entries whose new texts end before an offset of the edited text end before the offset it comes
from. -/
theorem stop_le_of_placed_stop_lt (hl : Between 0 (A ++ B) j)
    (hA : ∀ r ∈ placeFrom 0 A, r.stop < editedOffsetFrom 0 p (A ++ B)) : ∀ a ∈ A, a.stop ≤ p := by
  intro a ha
  by_contra hpa
  obtain ⟨A₀, A₁, rfl⟩ := List.append_of_mem ha
  rw [List.append_assoc, List.cons_append] at hl hA
  have hbefore : (a.offset + (0 + totalGrowth A₀)).toNat + a.size < _ :=
    hA _ (mem_placeFrom_append_cons 0 A₀ a A₁)
  have hgrow := hl.left_of_append_cons.le_add_growth
  have hback := editedOffsetFrom_append_cons_le (g := 0) hl (Int.le_refl 0) (Nat.lt_of_not_le hpa)
  omega

/-- Entries that are placed behind an offset of the edited text start behind the offset it comes
from. -/
theorem lt_offset_of_lt_placed (hl : Between 0 (B ++ C) j)
    (hC : ∀ c ∈ C, editedOffsetFrom 0 p (B ++ C) < c.offset + totalGrowth B) :
    ∀ c ∈ C, p < c.offset := by
  cases C with
  | nil => exact fun c hc => absurd hc List.not_mem_nil
  | cons d C =>
    have hd : p < d.offset := by
      by_contra hdp
      have hfirst := hC d List.mem_cons_self
      have hfront := le_editedOffsetFrom_append_cons (g := 0) hl (Nat.le_of_not_lt hdp)
      omega
    intro c hc
    rcases List.mem_cons.mp hc with rfl | hc
    · exact hd
    · have hdc := (hl.right_of_append_cons.mem hc).1
      have := d.offset_le_stop
      omega

/-- **The start of a range next to the first entry it touches**: in front of it and moved with it,
or not in front of it in either text. -/
theorem editedOffsetFrom_start (hl : Between 0 (A ++ d :: m) j) (hA : ∀ a ∈ A, a.stop ≤ p) :
    p < d.offset ∧ (editedOffsetFrom 0 p (A ++ d :: m) : Int) = p + totalGrowth A ∨
      d.offset ≤ p ∧ d.offset + totalGrowth A ≤ editedOffsetFrom 0 p (A ++ d :: m) := by
  by_cases hp : p < d.offset
  · have hgrow := (hl.left_of_append_cons.of_stop_le hA (Nat.zero_le p)).le_add_growth
    have hds := d.stop_eq
    rw [editedOffsetFrom_append hA, editedOffsetFrom_of_le_head fun x hx => ?_]
    · omega
    · cases hx
      omega
  · have hfront := le_editedOffsetFrom_append_cons (g := 0) hl (Nat.le_of_not_lt hp)
    omega

/-- **The end of a range next to the last entry it touches**: behind it and moved with it, or not
behind it in either text. -/
theorem editedOffsetFrom_stop (hl : Between 0 (B ++ t :: C) j) (hC : ∀ c ∈ C, p < c.offset) :
    t.stop ≤ p ∧ (editedOffsetFrom 0 p (B ++ t :: C) : Int) = p + totalGrowth (B ++ [t]) ∨
      p < t.stop ∧ editedOffsetFrom 0 p (B ++ t :: C) ≤ t.stop + totalGrowth (B ++ [t]) := by
  have hts := t.stop_eq
  rw [totalGrowth_concat, growth]
  by_cases hp : t.stop ≤ p
  · have hB : ∀ b ∈ B, b.stop ≤ p := fun b hb => by
      have := (hl.left_of_append_cons.mem hb).2
      have := t.offset_le_stop
      omega
    have hgrow := (hl.left_of_append_cons.append
      (show Between t.offset [t] p from ⟨Nat.le_refl _, hp⟩)).le_add_growth
    rw [totalGrowth_concat, growth] at hgrow
    rw [editedOffsetFrom_append hB, editedOffsetFrom, if_pos hp,
      editedOffsetFrom_of_le_head fun c hc => ?_, growth]
    · omega
    · have := hC c (List.mem_of_mem_head? hc)
      have := c.offset_le_stop
      omega
  · have hback := editedOffsetFrom_append_cons_le (g := 0) hl (Int.le_refl 0) (Nat.lt_of_not_le hp)
    omega

/-! ## The smallest range -/

/-- **The smallest range around entries and what lies outside of them of an edit.**  It holds the
whole edit, but is the smallest one already by the bytes that no entry replaces. -/
structure Edit.IsHull (i j : Nat) (l : List Edit) (e : Edit) : Prop where
  entries : ∀ x ∈ l, i ≤ x.offset ∧ x.stop ≤ j
  edit : i ≤ e.offset ∧ e.stop ≤ j
  least : ∀ i' j', (∀ x ∈ l, i' ≤ x.offset ∧ x.stop ≤ j') →
    (∀ k, e.offset ≤ k → k < e.stop → (∀ x ∈ l, k < x.offset ∨ x.stop ≤ k) → i' ≤ k ∧ k < j') →
      i' ≤ i ∧ j ≤ j'

/-- The hull of an edit and of entries one behind the other is found at their ends. -/
theorem Edit.isHull_of_edges (hB : Between i B j) (hhead : B = d :: B₁) (hlast : B = B₀ ++ [t])
    (hstart : e.length = 0 → d.offset ≤ e.offset) (hstop : e.length = 0 → e.stop ≤ t.stop) :
    IsHull (min e.offset d.offset) (max e.stop t.stop) B e where
  entries x hx := by
    have := (hB.of_edges hhead hlast).mem hx
    omega
  edit := ⟨Nat.min_le_left .., Nat.le_max_left ..⟩
  least i' j' hentries hedit := by
    have hedges := hB.of_edges hhead hlast
    have hes := e.stop_eq
    have hd := hentries d (hhead ▸ List.mem_cons_self)
    have ht := hentries t (hlast ▸ List.mem_append_right B₀ List.mem_cons_self)
    refine ⟨?_, ?_⟩
    · by_cases hfront : e.offset < d.offset
      · have hbyte := hedit e.offset (Nat.le_refl _) (by omega) fun x hx =>
          .inl (Nat.lt_of_lt_of_le hfront (hedges.mem hx).1)
        omega
      · omega
    · by_cases hback : t.stop < e.stop
      · have hbyte := hedit (e.stop - 1) (by omega) (by omega) fun x hx => .inr (by
          have := (hedges.mem hx).2
          omega)
        omega
      · omega

/-! ## The range of a merge -/

namespace EditSet.Parts

variable (hparts : set.Parts (set.editedOffset e.offset) (set.editedOffset e.stop) A B C)
  (h : Fits source set.entries)

include hparts h

theorem fits : Fits source (A ++ (B ++ C)) := hparts.entries_eq ▸ h

/-- **The start of the edit next to the first entry it touches.** -/
theorem start_cases (hhead : B = d :: B₁) :
    e.offset < d.offset ∧ (set.editedOffset e.offset : Int) = e.offset + totalGrowth A ∨
      d.offset ≤ e.offset ∧ d.offset + totalGrowth A ≤ set.editedOffset e.offset := by
  have hfront := hparts.placed_stop_lt
  have hbetween := (hparts.fits h).between
  rw [EditSet.editedOffset, hparts.entries_eq] at hfront ⊢
  have hA := stop_le_of_placed_stop_lt hbetween hfront
  rw [hhead, List.cons_append] at hbetween ⊢
  exact editedOffsetFrom_start hbetween hA

/-- **The end of the edit next to the last entry it touches.** -/
theorem stop_cases (hlast : B = B₀ ++ [t]) :
    t.stop ≤ e.stop ∧ (set.editedOffset e.stop : Int) = e.stop + totalGrowth (A ++ B) ∨
      e.stop < t.stop ∧ set.editedOffset e.stop ≤ t.stop + totalGrowth (A ++ B) := by
  have hbehind := hparts.behind
  have hbetween := (hparts.fits h).between
  rw [EditSet.editedOffset, hparts.entries_eq, ← List.append_assoc] at hbehind ⊢
  rw [← List.append_assoc] at hbetween
  have hC := lt_offset_of_lt_placed hbetween hbehind
  rw [hlast, ← List.append_assoc, List.append_assoc, List.singleton_append] at hbetween ⊢
  exact editedOffsetFrom_stop hbetween hC

/-- The first and the last entry that are touched, as they are placed. -/
theorem placed_edges (hhead : B = d :: B₁) (hlast : B = B₀ ++ [t]) :
    d.offset + totalGrowth A ≤ set.editedOffset e.stop ∧
      set.editedOffset e.offset ≤ t.stop + totalGrowth (A ++ B) := by
  have hbetween := (hparts.fits h).between
  obtain ⟨first, hfirst, hfirstEq⟩ := exists_head?_placeFrom hbetween hhead
  obtain ⟨last, hend, hendEq⟩ := exists_getLast?_placeFrom hbetween hlast
  have htouched : ∀ q ∈ placeFrom (totalGrowth A) B,
      set.editedOffset e.offset ≤ q.stop ∧ q.start ≤ set.editedOffset e.stop := fun q hq => by
    rw [hparts.touched_eq] at hq
    exact (mem_touched_iff.mp hq).2
  have hd : first ≤ set.editedOffset e.stop := (htouched _ (List.mem_of_mem_head? hfirst)).2
  have ht : set.editedOffset e.offset ≤ last + t.size :=
    (htouched _ (List.mem_of_getLast? hend)).1
  omega

/-- **The range of a merge** is the hull of the edit and of the entries it touches. -/
theorem isHull (hhead : B = d :: B₁) (hlast : B = B₀ ++ [t]) :
    IsHull (min e.offset d.offset) (max e.stop t.stop) B e := by
  have hes := e.stop_eq
  obtain ⟨hd, ht⟩ := hparts.placed_edges h hhead hlast
  have hstart := hparts.start_cases h hhead
  have hstop := hparts.stop_cases h hlast
  obtain ⟨_, -, hBC⟩ := (hparts.fits h).between.exists_mid
  obtain ⟨_, hB, -⟩ := hBC.exists_mid
  refine isHull_of_edges hB hhead hlast (fun hins => ?_) fun hins => ?_
  · have hsame : e.stop = e.offset := by omega
    rw [hsame] at hd
    omega
  · have hsame : e.stop = e.offset := by omega
    rw [← hsame] at ht
    omega

/-- **The region of a merge**, which nothing can go wrong with: both ends of its range are ends of
the edit or of an entry. -/
theorem regionOf_eq (he : OnBoundaries source e) (hhead : B = d :: B₁) (hlast : B = B₀ ++ [t]) :
    set.regionOf source (set.editedOffset e.offset) (set.editedOffset e.stop)
        (placeFrom (totalGrowth A) B) =
      .ok ⟨min (set.editedOffset e.offset) (d.offset + totalGrowth A).toNat,
        min e.offset d.offset, max e.stop t.stop,
        editedBetween source (min e.offset d.offset) B (max e.stop t.stop)⟩ := by
  have hfits := hparts.fits h
  obtain ⟨first, hfirst, hfirstEq⟩ := exists_head?_placeFrom hfits.between hhead
  obtain ⟨last, hend, hendEq⟩ := exists_getLast?_placeFrom hfits.between hlast
  have hstart := hparts.start_cases h hhead
  have hstop := hparts.stop_cases h hlast
  have hd : d ∈ A ++ (B ++ C) := hhead ▸ List.mem_append_right A List.mem_cons_self
  have ht : t ∈ A ++ (B ++ C) := List.mem_append_right A (List.mem_append_left C
    (hlast ▸ List.mem_append_right B₀ List.mem_cons_self))
  have hrange : checkRange source (min e.offset d.offset) (max e.stop t.stop) = .ok () := by
    have := e.offset_le_stop
    refine checkRange_eq_ok_iff.mpr ⟨by omega, ?_, ?_⟩
    · exact min_rec' (IsBoundary source) he.1 (hfits.onBoundaries d hd).1
    · exact max_rec' (IsBoundary source) he.2 (hfits.onBoundaries t ht).2
  have hsourceStart : d.offset - (first - min (set.editedOffset e.offset) first) =
      min e.offset d.offset := by
    omega
  have hsourceStop : t.stop + (max (set.editedOffset e.stop) (last + t.size) - (last + t.size)) =
      max e.stop t.stop := by
    omega
  rw [regionOf, hfirst, hend, ← hfirstEq, Int.toNat_natCast]
  dsimp only [PlacedEdit.stop]
  rw [hsourceStart, hsourceStop, hrange, map_edit_placeFrom]
  rfl

/-- **A merge has a region**, over the hull of the edit and what it touches; the region holds the
edit's range in the edited text. -/
theorem exists_region (he : OnBoundaries source e) :
    ∃ region, set.regionOf source (set.editedOffset e.offset) (set.editedOffset e.stop)
        (placeFrom (totalGrowth A) B) = .ok region ∧
      IsHull region.sourceStart region.sourceStop B e ∧ region.Covers source A B C ∧
      region.start ≤ set.editedOffset e.offset ∧
      set.editedOffset e.stop ≤ region.start + region.text.utf8ByteSize := by
  obtain ⟨d, B₁, hhead⟩ : ∃ d B₁, B = d :: B₁ := List.exists_cons_of_ne_nil hparts.ne_nil
  obtain ⟨B₀, t, hlast⟩ : ∃ B₀ t, B = B₀ ++ [t] :=
    ⟨_, _, (List.dropLast_concat_getLast hparts.ne_nil).symm⟩
  have hfits := hparts.fits h
  have hregion := hparts.regionOf_eq h he hhead hlast
  have hstop := hparts.stop_cases h hlast
  obtain ⟨hcovers, hle⟩ := regionOf_eq_ok hfits hparts.ne_nil hparts.placed_stop_lt
    hparts.behind hregion
  refine ⟨_, hregion, hparts.isHull h hhead hlast, hcovers, hle, ?_⟩
  have hsize := size_editedBetween hcovers.start_boundary hcovers.stop_boundary
    (fun b hb => hfits.onBoundaries b (List.mem_append_right A (List.mem_append_left C hb)))
    hcovers.group
  have hstartEq := hcovers.start_eq
  rw [totalGrowth_append] at hstop
  rw [hcovers.text_eq]
  dsimp only at hsize hstartEq ⊢
  omega

end EditSet.Parts

/-! ## What a merge comes to -/

/-- The boundaries of a text that is put between two others. -/
theorem isBoundary_append_iff {a b c : String} (hk : k ≤ b.utf8ByteSize) :
    IsBoundary (a ++ b ++ c) (a.utf8ByteSize + k) ↔ IsBoundary b k := by
  constructor
  · intro h
    rw [String.append_assoc] at h
    obtain ⟨front, back, hbc, hfront⟩ :=
      exists_append_of_isBoundary h (Nat.le_add_right _ k)
    have hsize : front.utf8ByteSize = k := by omega
    obtain ⟨rest, rfl⟩ := exists_append_of_size_le hbc.symm (by omega)
    exact isBoundary_iff.mpr ⟨front, rest, rfl, hsize⟩
  · intro h
    obtain ⟨front, back, rfl, hfront⟩ := isBoundary_iff.mp h
    refine isBoundary_iff.mpr ⟨a ++ front, back ++ c, by simp only [String.append_assoc], ?_⟩
    rw [String.utf8ByteSize_append, hfront]

/-- **A region stands in the edited text** where it says. -/
theorem Region.Covers.exists_around {region : Region} (hcovers : region.Covers source A B C)
    (h : Fits source (A ++ (B ++ C))) :
    ∃ a c, a.utf8ByteSize = region.start ∧
      editedBetween source 0 (A ++ (B ++ C)) source.utf8ByteSize = a ++ region.text ++ c := by
  obtain ⟨cover, hoffset, hstop⟩ : ∃ cover : Edit, cover.offset = region.sourceStart ∧
      cover.stop = region.sourceStop :=
    ⟨⟨region.sourceStart, region.sourceStop - region.sourceStart, ""⟩, rfl,
      Nat.add_sub_of_le hcovers.group.le⟩
  have hfits := h.replace (m := cover)
    ⟨hoffset ▸ hcovers.start_boundary, hstop ▸ hcovers.stop_boundary⟩
    (hcovers.apart_left cover hoffset hstop) (hcovers.apart_right cover hoffset hstop)
  obtain ⟨a, c, hsize, htext, -⟩ := editedBetween_replace h hfits
    (by rw [hoffset, hstop]; exact hcovers.group)
  rw [hoffset, hstop, ← hcovers.text_eq] at htext
  have hstart := hcovers.start_eq
  rw [hoffset] at hsize
  exact ⟨a, c, by omega, htext⟩

/-- Between its ends a region has the boundaries of the edited text. -/
theorem Region.Covers.isBoundary_iff {region : Region} (hcovers : region.Covers source A B C)
    (h : Fits source (A ++ (B ++ C))) (hfront : region.start ≤ p)
    (hback : p ≤ region.start + region.text.utf8ByteSize) :
    IsBoundary region.text (p - region.start) ↔
      IsBoundary (editedBetween source 0 (A ++ (B ++ C)) source.utf8ByteSize) p := by
  obtain ⟨a, c, hsize, htext⟩ := hcovers.exists_around h
  have hinside := isBoundary_append_iff (a := a) (c := c)
    (show p - region.start ≤ region.text.utf8ByteSize by omega)
  rw [hsize, Nat.add_sub_of_le hfront, ← htext] at hinside
  exact hinside.symm

/-- **What a merge comes to.**  The entries that the edit touches in the edited text give way to
one over the hull, unless an end of the edit splits a character there. -/
theorem EditSet.exists_merge (h : Fits source set.entries) (he : OnBoundaries source e)
    (hmeets : set.meets e = true)
    (hkeeps : set.editedOffset e.stop = set.editedOffset e.offset + e.length) :
    ∃ A B C combined, set.Parts (set.editedOffset e.offset) (set.editedOffset e.stop) A B C ∧
      IsHull combined.offset combined.stop B e ∧
      set.foldInto source (set.editedOffset e.offset) e =
        if IsBoundary (editedBetween source 0 set.entries source.utf8ByteSize)
            (set.editedOffset e.offset) ∧
          IsBoundary (editedBetween source 0 set.entries source.utf8ByteSize)
            (set.editedOffset e.stop) then
          .ok (.merged A.length (A.length + B.length) combined set.revision)
        else .error (.splitsCharacter e.offset) := by
  obtain ⟨A, B, C, hparts⟩ := exists_parts_of_meets h hmeets
  obtain ⟨region, hregion, hhull, hcovers, hstart, hstop⟩ := hparts.exists_region h he
  have hfold : set.foldInto source (set.editedOffset e.offset) e = _ :=
    (hkeeps ▸ hparts).foldInto_eq
  rw [← hkeeps, hregion] at hfold
  have hends := and_congr (hcovers.isBoundary_iff (hparts.fits h) hstart (by omega))
    (hcovers.isBoundary_iff (hparts.fits h)
      (show region.start ≤ set.editedOffset e.stop by omega) hstop)
  rw [hkeeps, Nat.sub_add_comm hstart, ← hkeeps, ← hparts.entries_eq] at hends
  refine ⟨A, B, C, _, hparts, ?_, hfold.trans (if_congr hends rfl rfl)⟩
  rwa [stop_eq, Nat.add_sub_of_le hcovers.group.le]

end ProbeWeaver
