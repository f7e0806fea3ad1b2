import ProbeWeaver.Proofs.Edit.Rendering
import ProbeWeaver.Proofs.Edit.Touching
import ProbeWeaver.Proofs.Outcome

/-!
# Proofs/Edit/Merging — a plan rewrites the edited text in place

Whichever way an edit goes in, the entries `A ++ B ++ C` become `A ++ m :: C`, where the new entry
`m` covers the source range of the group `B` (`Fits.replace`).  On the direct path `B` is empty and
`m` is the edit; on the merged path the range of `m` is found from a stretch of the edited text
(`regionOf_eq_ok`), and its text is the group's with the edit carried out in it.

* `plan_eq_ok` — the entries after a plan fit the text, and the edited text after it is the edited
  text before with the bytes of the edited range replaced.
-/

namespace ProbeWeaver

open Text Edit

variable {source : String} {j start stop first last : Nat} {d e m t : Edit}
  {l A B C B₀ B₁ : List Edit} {set : EditSet} {region : Region} {step : Plan}

theorem checkRange_eq_ok_iff :
    checkRange source start stop = .ok () ↔
      start ≤ stop ∧ IsBoundary source start ∧ IsBoundary source stop := by
  rw [checkRange]
  split
  · next h =>
    refine ⟨nofun, fun h' => ?_⟩
    have := h'.2.2.le_size
    omega
  · split
    · next h => exact ⟨nofun, fun h' => absurd h'.2.1 h⟩
    · split
      · next h => exact ⟨nofun, fun h' => absurd h'.2.2 h⟩
      · next hrange hstart hstop =>
        exact ⟨fun _ => ⟨by omega, Decidable.of_not_not hstart, Decidable.of_not_not hstop⟩,
          fun _ => rfl⟩

/-! ## One entry in the place of a group -/

/-- **An entry that is apart from both sides takes the place of a group.** -/
theorem Edit.Fits.replace (h : Fits source (A ++ (B ++ C))) (hm : OnBoundaries source m)
    (hA : ∀ a ∈ A, Apart a m) (hC : ∀ c ∈ C, Apart m c) : Fits source (A ++ m :: C) := by
  obtain ⟨hAs, hBC, hAC⟩ := List.pairwise_append.mp h.apart
  refine ⟨List.pairwise_append.mpr ⟨hAs, List.pairwise_cons.mpr
    ⟨hC, (List.pairwise_append.mp hBC).2.1⟩, fun a ha c hc => ?_⟩, fun d hd => ?_⟩
  · rcases List.mem_cons.mp hc with rfl | hc
    · exact hA a ha
    · exact hAC a ha c (List.mem_append_right B hc)
  · rcases List.mem_append.mp hd with hd | hd
    · exact h.onBoundaries d (List.mem_append_left _ hd)
    · rcases List.mem_cons.mp hd with rfl | hd
      · exact hm
      · exact h.onBoundaries d (List.mem_append_right A (List.mem_append_right B hd))

/-- **Only the stretch of the group changes** when an entry takes its place. -/
theorem editedBetween_replace (h : Fits source (A ++ (B ++ C))) (hm : Fits source (A ++ m :: C))
    (hB : Between m.offset B m.stop) :
    ∃ a c, a.utf8ByteSize = m.offset + totalGrowth A ∧
      editedBetween source 0 (A ++ (B ++ C)) source.utf8ByteSize =
        a ++ editedBetween source m.offset B m.stop ++ c ∧
      editedBetween source 0 (A ++ m :: C) source.utf8ByteSize = a ++ m.text ++ c := by
  have hzero := isBoundary_zero source
  have hsize := isBoundary_size source
  obtain ⟨hstart, hstop⟩ := hm.onBoundaries m (List.mem_append_right A List.mem_cons_self)
  have hA : Between 0 A m.offset := hm.between.left_of_append_cons
  have hC : Between m.stop C source.utf8ByteSize := hm.between.right_of_append_cons
  have hbA : ∀ a ∈ A, OnBoundaries source a := fun a ha =>
    h.onBoundaries a (List.mem_append_left _ ha)
  refine ⟨editedBetween source 0 A m.offset, editedBetween source m.stop C source.utf8ByteSize,
    ?_, ?_, ?_⟩
  · have := size_editedBetween hzero hstart hbA hA
    omega
  · rw [editedBetween_append hzero hstart hsize h.onBoundaries hA (hB.append hC),
      editedBetween_append hstart hstop hsize
        (fun d hd => h.onBoundaries d (List.mem_append_right A hd)) hB hC, String.append_assoc]
  · rw [editedBetween_append hzero hstart hsize hm.onBoundaries hA ⟨Nat.le_refl _, hC⟩,
      editedBetween, slice_self, String.empty_append, String.append_assoc]

/-! ## The stretch around a group -/

/-- **A region stands for the group `B`** between `A` and `C`: its source range covers the group and
keeps apart from both sides, and its text is what the edited text has there. -/
structure Region.Covers (region : Region) (source : String) (A B C : List Edit) : Prop where
  start_eq : region.sourceStart + totalGrowth A = region.start
  start_boundary : IsBoundary source region.sourceStart
  stop_boundary : IsBoundary source region.sourceStop
  group : Between region.sourceStart B region.sourceStop
  apart_left : ∀ m : Edit, m.offset = region.sourceStart → m.stop = region.sourceStop →
    ∀ a ∈ A, Apart a m
  apart_right : ∀ m : Edit, m.offset = region.sourceStart → m.stop = region.sourceStop →
    ∀ c ∈ C, Apart m c
  text_eq : region.text = editedBetween source region.sourceStart B region.sourceStop

/-- The first entry of a group as it is placed. -/
theorem exists_head?_placeFrom (h : Between 0 (A ++ (B ++ C)) j) (hhead : B = d :: B₁) :
    ∃ first : Nat, (placeFrom (totalGrowth A) B).head? = some ⟨d, first⟩ ∧
      (first : Int) = d.offset + totalGrowth A := by
  rw [hhead] at h ⊢
  have hgrow := h.left_of_append_cons.le_add_growth
  exact ⟨(d.offset + totalGrowth A).toNat, rfl, by omega⟩

/-- The last entry of a group as it is placed. -/
theorem exists_getLast?_placeFrom (h : Between 0 (A ++ (B ++ C)) j) (hlast : B = B₀ ++ [t]) :
    ∃ last : Nat, (placeFrom (totalGrowth A) B).getLast? = some ⟨t, last⟩ ∧
      (last + t.size : Int) = t.stop + totalGrowth (A ++ B) := by
  rw [hlast, List.append_assoc, List.singleton_append, ← List.append_assoc] at h
  have hgrow := h.left_of_append_cons.le_add_growth
  rw [totalGrowth_append] at hgrow
  have hts := t.stop_eq
  refine ⟨_, hlast ▸ getLast?_placeFrom_concat (totalGrowth A) B₀ t, ?_⟩
  rw [hlast, totalGrowth_append, totalGrowth_concat, growth]
  omega

/-- What a region around a nonempty group is made of. -/
theorem regionOf_inv {group : List PlacedEdit} (hhead : group.head? = some ⟨d, first⟩)
    (hlast : group.getLast? = some ⟨t, last⟩)
    (h : set.regionOf source start stop group = .ok region) :
    IsBoundary source region.sourceStart ∧ IsBoundary source region.sourceStop ∧
      region.start = min start first ∧
      region.sourceStart = d.offset - (first - region.start) ∧
      region.sourceStop = t.stop + (max stop (last + t.size) - (last + t.size)) ∧
      region.text =
        editedBetween source region.sourceStart (group.map PlacedEdit.edit) region.sourceStop := by
  rw [EditSet.regionOf, hhead, hlast] at h
  obtain ⟨⟨⟩, hrange, h⟩ := bind_eq_ok_iff.mp h
  obtain ⟨-, hstart, hstop⟩ := checkRange_eq_ok_iff.mp hrange
  obtain rfl := Except.ok.inj h
  exact ⟨hstart, hstop, rfl, rfl, rfl, rfl⟩

/-- **The region around a group that is touched** covers the group. -/
theorem regionOf_eq_ok (h : Fits source (A ++ (B ++ C))) (hB : B ≠ [])
    (hA : ∀ q ∈ placeFrom 0 A, q.stop < start)
    (hC : ∀ c ∈ C, stop < c.offset + totalGrowth (A ++ B))
    (hregion : set.regionOf source start stop (placeFrom (totalGrowth A) B) = .ok region) :
    region.Covers source A B C ∧ region.start ≤ start := by
  obtain ⟨B₀, t, hlast⟩ : ∃ B₀ t, B = B₀ ++ [t] :=
    ⟨B.dropLast, B.getLast hB, (List.dropLast_concat_getLast hB).symm⟩
  obtain ⟨d, B₁, hhead⟩ : ∃ d B₁, B = d :: B₁ := List.exists_cons_of_ne_nil hB
  obtain ⟨first, hfirst, hfirstEq⟩ := exists_head?_placeFrom h.between hhead
  obtain ⟨last, hend, hendEq⟩ := exists_getLast?_placeFrom h.between hlast
  obtain ⟨hstart, hstop, hregionStart, hsourceStart, hsourceStop, htext⟩ :=
    regionOf_inv hfirst hend hregion
  rw [map_edit_placeFrom] at htext
  obtain ⟨hapartA, hapartBC, hcross⟩ := List.pairwise_append.mp h.apart
  have hcrossBC := (List.pairwise_append.mp hapartBC).2.2
  have hdB : d ∈ B := hhead ▸ List.mem_cons_self
  have htB : t ∈ B := hlast ▸ List.mem_append_right B₀ List.mem_cons_self
  obtain ⟨k, hkA, hBC⟩ := h.between.exists_mid
  have hleft : Between 0 A d.offset :=
    hkA.mono (Nat.le_refl 0) (hBC.mem (List.mem_append_left C hdB)).1
  obtain ⟨k, hk, -, -, hAk⟩ := exists_offset_of_placed_stop_lt hleft (by omega) (by omega) hA
  have hgroup : Between region.sourceStart B region.sourceStop := by
    obtain ⟨_, hinner, -⟩ := hBC.exists_mid
    exact (hinner.of_edges hhead hlast).mono (by omega) (by omega)
  refine ⟨⟨?_, hstart, hstop, hgroup, fun m hm hm' a ha => ?_, fun m hm hm' c hc => ?_, htext⟩,
    ?_⟩
  · omega
  · have had := apart_iff.mp (hcross a ha d (List.mem_append_left C hdB))
    have hak := hAk a ha
    have hdm := hgroup.mem hdB
    rw [apart_iff]
    have := a.stop_eq
    have := d.stop_eq
    have := m.stop_eq
    omega
  · have htc := apart_iff.mp (hcrossBC t htB c hc)
    have hck := hC c hc
    have htm := hgroup.mem htB
    rw [apart_iff]
    have := m.stop_eq
    have := c.stop_eq
    omega
  · omega

/-! ## Plans -/

/-- **A plan rewrites `length` bytes from `start` of the edited text into `text`** and leaves
entries that fit the source. -/
structure Plan.Rewrites (step : Plan) (set : EditSet) (source : String) (start length : Nat)
    (text : String) : Prop where
  revision_eq : step.revision = set.revision
  fits : Fits source (set.entriesAfter step)
  rewrites : ∃ a b c : String,
    editedBetween source 0 set.entries source.utf8ByteSize = a ++ b ++ c ∧
      editedBetween source 0 (set.entriesAfter step) source.utf8ByteSize = a ++ text ++ c ∧
      a.utf8ByteSize = start ∧ b.utf8ByteSize = length

theorem entriesAfter_direct {revision : Nat} (h : set.entries = A ++ C) :
    set.entriesAfter (.direct A.length e revision) = A ++ e :: C := by
  rw [EditSet.entriesAfter, h, List.take_left, List.drop_left]

theorem entriesAfter_merged {revision : Nat} (h : set.entries = A ++ (B ++ C)) :
    set.entriesAfter (.merged A.length (A.length + B.length) m revision) = A ++ m :: C := by
  rw [EditSet.entriesAfter, h, List.take_left, ← List.length_append, ← List.append_assoc,
    List.drop_left]

/-- **An entry in the place of a group** rewrites the edited text where its text differs from what
the group gave. -/
theorem Plan.Rewrites.of_replace {u v w text : String} {length : Nat}
    (h : Fits source (A ++ (B ++ C))) (hbefore : set.entries = A ++ (B ++ C))
    (hafter : set.entriesAfter step = A ++ m :: C) (hrevision : step.revision = set.revision)
    (hm : OnBoundaries source m) (hA : ∀ a ∈ A, Apart a m) (hC : ∀ c ∈ C, Apart m c)
    (hB : Between m.offset B m.stop)
    (hgroup : editedBetween source m.offset B m.stop = u ++ v ++ w)
    (htext : m.text = u ++ text ++ w)
    (hstart : (m.offset + totalGrowth A + u.utf8ByteSize : Int) = start)
    (hlength : v.utf8ByteSize = length) : step.Rewrites set source start length text := by
  have hfits := h.replace hm hA hC
  obtain ⟨a, c, hsize, hold, hnew⟩ := editedBetween_replace h hfits hB
  refine ⟨hrevision, by rwa [hafter], a ++ u, v, w ++ c, ?_, ?_, ?_, hlength⟩
  · rw [hbefore, hold, hgroup]
    simp only [String.append_assoc]
  · rw [hafter, hnew, htext]
    simp only [String.append_assoc]
  · rw [String.utf8ByteSize_append]
    omega

/-! ## The merged path -/

/-- Entries behind those that a range touches are placed behind the range. -/
theorem lt_of_dropWhile_placeFrom {placed : List PlacedEdit} {g : Int} (h : C.Pairwise Apart)
    (hC : placed.dropWhile (fun q => decide (q.start ≤ stop)) = placeFrom g C) :
    ∀ c ∈ C, stop < c.offset + g := by
  have hhead := List.head?_dropWhile_not (fun q : PlacedEdit => decide (q.start ≤ stop)) placed
  rw [hC] at hhead
  cases C with
  | nil => exact fun c hc => absurd hc List.not_mem_nil
  | cons d C =>
    have hd : ¬ (d.offset + g).toNat ≤ stop := by simpa [placeFrom] using hhead
    intro c hc
    rcases List.mem_cons.mp hc with rfl | hc
    · omega
    · have hdc := ((List.pairwise_cons.mp h).1 c hc).2
      have := d.offset_le_stop
      omega

/-- **The entries around a range of the edited text**: those whose new text ends in front of it,
those it touches, and those behind it. -/
structure EditSet.Parts (set : EditSet) (start stop : Nat) (A B C : List Edit) : Prop where
  entries_eq : set.entries = A ++ (B ++ C)
  ne_nil : B ≠ []
  touched_eq : placeFrom (totalGrowth A) B = set.touched start stop
  front_eq : (placeFrom 0 set.entries).takeWhile (·.stop < start) = placeFrom 0 A
  group_eq : ((placeFrom 0 set.entries).drop A.length).takeWhile (·.start ≤ stop) =
    placeFrom (totalGrowth A) B
  behind : ∀ c ∈ C, stop < c.offset + totalGrowth (A ++ B)

/-- A range that touches an entry has entries around it. -/
theorem EditSet.exists_parts (h : Fits source set.entries)
    (htouch : ∃ q ∈ placeFrom 0 set.entries, q.start ≤ stop ∧ start ≤ q.stop) :
    ∃ A B C, set.Parts start stop A B C := by
  obtain ⟨A, D, hAD, hA, hD⟩ :=
    exists_cut_placeFrom (fun q => decide (q.stop < start)) 0 set.entries
  obtain ⟨B, C, rfl, hB, hC⟩ :=
    exists_cut_placeFrom (fun q => decide (q.start ≤ stop)) (0 + totalGrowth A) D
  have hdrop : (placeFrom 0 set.entries).drop A.length =
      placeFrom (0 + totalGrowth A) (B ++ C) := by
    rw [hAD, placeFrom_append, ← length_placeFrom 0 A, List.drop_left]
  have htouched : placeFrom (totalGrowth A) B = set.touched start stop := by
    rw [touched_eq_takeWhile h.between, hD, hB, Int.zero_add]
  refine ⟨A, B, C, hAD, ?_, htouched, hA, by rw [hdrop, hB, Int.zero_add], ?_⟩
  · rintro rfl
    obtain ⟨q, hq, hfirst, hlast⟩ := htouch
    have hqB := mem_touched_iff.mpr ⟨hq, hlast, hfirst⟩
    rw [← htouched] at hqB
    exact absurd hqB List.not_mem_nil
  · have hapart := (List.pairwise_append.mp (List.pairwise_append.mp (hAD ▸ h.apart)).2.1).2.1
    intro c hc
    have := lt_of_dropWhile_placeFrom hapart hC c hc
    rw [totalGrowth_append]
    omega

/-- **An edit that meets an entry** touches one. -/
theorem EditSet.exists_parts_of_meets (h : Fits source set.entries) (hmeets : set.meets e = true) :
    ∃ A B C, set.Parts (set.editedOffset e.offset) (set.editedOffset e.stop) A B C := by
  obtain ⟨x, hx, hover⟩ := (meets_iff h.apart).mp hmeets
  exact exists_parts h (exists_touched_of_overlaps h.between h.apart hx hover)

theorem EditSet.Parts.placed_stop_lt (hparts : set.Parts start stop A B C) :
    ∀ q ∈ placeFrom 0 A, q.stop < start := fun q hq => by
  rw [← hparts.front_eq] at hq
  exact of_decide_eq_true (List.all_eq_true.mp List.all_takeWhile q hq)

/-- **What a merge does**, the entries around its range being known. -/
theorem EditSet.Parts.foldInto_eq (hparts : set.Parts start (start + e.length) A B C) :
    set.foldInto source start e =
      set.regionOf source start (start + e.length) (placeFrom (totalGrowth A) B) >>= fun region =>
        if IsBoundary region.text (start - region.start) ∧
            IsBoundary region.text (start - region.start + e.length) then
          .ok (.merged A.length (A.length + B.length)
            ⟨region.sourceStart, region.sourceStop - region.sourceStart,
              slice region.text 0 (start - region.start) ++ e.text ++
                sliceFrom region.text (start - region.start + e.length)⟩ set.revision)
        else .error (.splitsCharacter e.offset) := by
  rw [foldInto, hparts.front_eq, length_placeFrom, hparts.group_eq, length_placeFrom]

/-- A text with a piece between two of its boundaries set apart. -/
theorem slice_split {t : String} {i n : Nat} (hi : IsBoundary t i) (hn : IsBoundary t (i + n)) :
    slice t 0 i ++ slice t i (i + n) ++ sliceFrom t (i + n) = t := by
  rw [sliceFrom,
    slice_append_slice (isBoundary_zero t) hi hn (Nat.zero_le i) (Nat.le_add_right i n),
    slice_append_slice (isBoundary_zero t) hn (isBoundary_size t) (Nat.zero_le _) hn.le_size,
    slice_zero_size]

/-- **Folding an edit into what it touches** rewrites the edited text in place. -/
theorem foldInto_eq_ok (h : Fits source set.entries)
    (hparts : set.Parts start (start + e.length) A B C)
    (hfold : set.foldInto source start e = .ok step) :
    step.Rewrites set source start e.length e.text := by
  have hABC := hparts.entries_eq
  rw [hparts.foldInto_eq] at hfold
  obtain ⟨region, hregion, hfold⟩ := bind_eq_ok_iff.mp hfold
  rw [hABC] at h
  obtain ⟨hcovers, hle⟩ :=
    regionOf_eq_ok h hparts.ne_nil hparts.placed_stop_lt hparts.behind hregion
  split at hfold
  · next hboundary =>
    obtain rfl := Except.ok.inj hfold
    have hstop : region.sourceStart + (region.sourceStop - region.sourceStart) =
        region.sourceStop := Nat.add_sub_of_le hcovers.group.le
    have hsplit := slice_split hboundary.1 hboundary.2
    refine .of_replace h hABC (entriesAfter_merged hABC) rfl ⟨hcovers.start_boundary, ?_⟩
      (hcovers.apart_left _ rfl hstop) (hcovers.apart_right _ rfl hstop) ?_ ?_ rfl ?_ ?_
      (v := slice region.text (start - region.start) (start - region.start + e.length))
    · rw [stop_eq, hstop]
      exact hcovers.stop_boundary
    · rw [stop_eq, hstop]
      exact hcovers.group
    · rw [stop_eq, hstop, hsplit, hcovers.text_eq]
    · have hstart := hcovers.start_eq
      rw [size_slice (isBoundary_zero _) hboundary.1 (Nat.zero_le _)]
      show (region.sourceStart + totalGrowth A + _ : Int) = start
      omega
    · rw [size_slice hboundary.1 hboundary.2 (Nat.le_add_right _ _)]
      omega
  · exact nomatch hfold

/-! ## The direct path -/

/-- An edit that overlaps no entry stands apart from the entries on either side. -/
theorem exists_cut_of_not_overlaps (h : l.Pairwise Apart) (hover : ∀ x ∈ l, x.overlaps e = false) :
    ∃ A C, l = A ++ C ∧ l.takeWhile (·.precedes e) = A ∧ (∀ a ∈ A, Apart a e) ∧
      ∀ c ∈ C, Apart e c := by
  refine ⟨l.takeWhile (·.precedes e), l.dropWhile (·.precedes e),
    List.takeWhile_append_dropWhile.symm, rfl, fun a ha => ?_, fun c hc => ?_⟩
  · exact apart_of_precedes (List.all_eq_true.mp List.all_takeWhile a ha)
      (hover a ((List.takeWhile_sublist _).subset ha))
  · have hhead := List.head?_dropWhile_not (·.precedes e) l
    have hpairs := h.sublist (List.dropWhile_sublist (·.precedes e))
    have hsub := (List.dropWhile_sublist (l := l) (·.precedes e)).subset
    cases hD : l.dropWhile (·.precedes e) with
    | nil => rw [hD] at hc; exact absurd hc List.not_mem_nil
    | cons d D =>
      rw [hD] at hhead hpairs hc hsub
      have hd : Apart e d :=
        apart_of_not_precedes hhead (hover d (hsub List.mem_cons_self))
      rcases List.mem_cons.mp hc with rfl | hc
      · exact hd
      · exact hd.trans ((List.pairwise_cons.mp hpairs).1 c hc)

/-- **An edit that meets no entry** goes in by its order. -/
theorem rewrites_direct (h : Fits source set.entries) (he : OnBoundaries source e)
    (hmeets : set.meets e = false) :
    Plan.Rewrites (.direct (set.entries.takeWhile (·.precedes e)).length e set.revision) set source
      (set.editedOffset e.offset) e.length e.text := by
  have hover : ∀ x ∈ set.entries, x.overlaps e = false := fun x hx => by
    rw [Bool.eq_false_iff] at hmeets ⊢
    exact fun hxe => hmeets ((meets_iff h.apart).mpr ⟨x, hx, hxe⟩)
  obtain ⟨A, C, hAC, htake, hA, hC⟩ := exists_cut_of_not_overlaps h.apart hover
  have hfits : Fits source (A ++ ([] ++ C)) := hAC ▸ h
  have hgrow := (hfits.replace he hA hC).between.left_of_append_cons.le_add_growth
  have hoffset : set.editedOffset e.offset = (e.offset + (0 + totalGrowth A)).toNat := by
    rw [EditSet.editedOffset, hAC,
      editedOffsetFrom_append fun a ha => (hA a ha).2, editedOffsetFrom_of_le_head fun c hc => ?_]
    have := apart_iff.mp (hC c (List.mem_of_mem_head? hc))
    have := e.offset_le_stop
    have := c.stop_eq
    omega
  rw [htake, hoffset]
  refine .of_replace hfits hAC (entriesAfter_direct hAC) rfl he hA hC e.offset_le_stop
    (u := "") (v := slice source e.offset e.stop) (w := "") ?_ ?_ ?_ ?_
  · rw [editedBetween, String.empty_append, String.append_empty]
  · rw [String.empty_append, String.append_empty]
  · rw [String.utf8ByteSize_empty]
    omega
  · rw [size_slice he.1 he.2 e.offset_le_stop, stop_eq]
    omega

/-- **An edit that meets no entry** goes in by its order. -/
theorem EditSet.plan_of_not_meets (he : OnBoundaries source e) (hmeets : set.meets e = false) :
    set.plan source e =
      .ok (.direct (set.entries.takeWhile (·.precedes e)).length e set.revision) := by
  rw [plan, checkRange_eq_ok_iff.mpr ⟨e.offset_le_stop, he⟩, hmeets]
  rfl

/-- **An edit that meets an entry** is folded in, provided its range keeps its size. -/
theorem EditSet.plan_of_meets (he : OnBoundaries source e) (hmeets : set.meets e = true) :
    set.plan source e =
      if set.editedOffset e.stop - set.editedOffset e.offset = e.length then
        set.foldInto source (set.editedOffset e.offset) e
      else .error (.irreconcilable e.offset e.length
        (set.editedOffset e.stop - set.editedOffset e.offset)) := by
  rw [plan, checkRange_eq_ok_iff.mpr ⟨e.offset_le_stop, he⟩, hmeets]
  rfl

/-- **A plan rewrites the edited text in place**, whichever way the edit goes in. -/
theorem plan_eq_ok (h : Fits source set.entries) (hplan : set.plan source e = .ok step) :
    step.Rewrites set source (set.editedOffset e.offset) e.length e.text := by
  obtain ⟨⟨⟩, hrange, hplan⟩ := bind_eq_ok_iff.mp hplan
  obtain ⟨-, hstart, hstop⟩ := checkRange_eq_ok_iff.mp hrange
  split at hplan
  · next hmeets =>
    dsimp only at hplan
    split at hplan
    · next hkeeps =>
      obtain ⟨A, B, C, hparts⟩ := EditSet.exists_parts_of_meets h hmeets
      rw [← Nat.add_sub_of_le (EditSet.editedOffset_mono h e.offset_le_stop), hkeeps] at hparts
      exact foldInto_eq_ok h hparts hplan
    · exact nomatch hplan
  · next hmeets =>
    obtain rfl := Except.ok.inj hplan
    exact rewrites_direct h ⟨hstart, hstop⟩ (Bool.eq_false_iff.mpr hmeets)

end ProbeWeaver
