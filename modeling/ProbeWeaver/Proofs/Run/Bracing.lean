import ProbeWeaver.Proofs.Run.Enclosures

/-!
# Proofs/Run/Bracing — the file with its new blocks

The braces pass alone puts one pair of braces around each controlled statement that is no block, and
nothing else.  The pairs arrive in the order of the constructs, not of the text, and statements that
end together are closed at one offset; all that is put at one offset is the same though, as long as
no statement starts where another one ends (`Node.Controls.stop_ne_start`).  So the braces nest.

* `blockText` — the text of a tree with braces around marked places.
* `Pipeline.exists_blocks_of_perform` — the braces pass alone over any files.
-/

namespace ProbeWeaver

open Text Node RunState

variable {t u : Tree} {source : String} {marked : Node → Bool} {n c d : Node} {e : Edit}
  {arrived more : List Edit} {place offset i j : Nat} {x : String}

/-! ## The order of arrival -/

/-- **What is the same at an offset** may arrive in any order. -/
theorem textAt_eq_of_perm (h : arrived.Perm more)
    (hsame : ∀ e ∈ arrived, e.offset = offset → e.text = x) :
    textAt arrived offset = textAt more offset := by
  have htexts : ((arrived.filter (·.offset == offset)).map (·.text)).Perm
      ((more.filter (·.offset == offset)).map (·.text)) := (h.filter _).map _
  have hall : ∀ y ∈ (arrived.filter (·.offset == offset)).map (·.text), y = x := by
    intro y hy
    obtain ⟨e, he, rfl⟩ := List.mem_map.mp hy
    obtain ⟨he, hoffset⟩ := List.mem_filter.mp he
    exact hsame e he (beq_iff_eq.mp hoffset)
  rw [textAt, textAt, List.eq_replicate_of_mem hall,
    List.eq_replicate_of_mem fun y hy => hall y (htexts.mem_iff.mpr hy), htexts.length_eq]

namespace Braces

/-! ## The text with blocks in place -/

mutual

/-- **The text of a tree with its blocks**: braces around each marked place, the tree standing at
`here`. -/
def blockText (source : String) (marked : Node → Bool) (here : Node) : Tree → String
  | .node _ _ s _ cs =>
    let inside := blockTexts source marked here 0 s.start s.stop cs
    if marked here then opening ++ (inside ++ closing) else inside

/-- The text between two offsets, with the children of `above` from number `i` on. -/
def blockTexts (source : String) (marked : Node → Bool) (above : Node) :
    Nat → Nat → Nat → List Tree → String
  | _, start, stop, [] => slice source start stop
  | i, start, stop, t :: ts =>
    slice source start t.span.start ++ (blockText source marked (.child above i t) t ++
      blockTexts source marked above (i + 1) t.span.stop stop ts)

end

mutual

/-- The braces around marked places, in the order of the text. -/
def blockEdits (marked : Node → Bool) (here : Node) : Tree → List Edit
  | .node _ _ s _ cs =>
    let below := blockEditsBelow marked here 0 cs
    if marked here then ⟨s.start, 0, opening⟩ :: (below ++ [⟨s.stop, 0, closing⟩]) else below

/-- The braces at and below the children of `above` from number `i` on. -/
def blockEditsBelow (marked : Node → Bool) (above : Node) : Nat → List Tree → List Edit
  | _, [] => []
  | i, t :: ts =>
    blockEdits marked (.child above i t) t ++ blockEditsBelow marked above (i + 1) ts

end

mutual

/-- The braces of a tree lie inside it. -/
theorem offset_of_mem_blockEdits {here : Node} : ∀ {t : Tree}, t.isLaidOut = true →
    e ∈ blockEdits marked here t → t.span.start ≤ e.offset ∧ e.offset ≤ t.span.stop
  | .node _ _ s _ cs, ht, he => by
      rw [Tree.isLaidOut] at ht
      have hspan : s.start ≤ s.stop := Tree.le_of_areLaidOut ht
      rw [blockEdits] at he
      split at he
      · rcases List.mem_cons.mp he with rfl | he
        · exact ⟨Nat.le_refl _, hspan⟩
        · rcases List.mem_append.mp he with he | he
          · exact offset_of_mem_blockEditsBelow ht he
          · rw [List.mem_singleton.mp he]
            exact ⟨hspan, Nat.le_refl _⟩
      · exact offset_of_mem_blockEditsBelow ht he

theorem offset_of_mem_blockEditsBelow {above : Node} : ∀ {ts : List Tree} {k i j : Nat},
    Tree.areLaidOut i j ts = true → e ∈ blockEditsBelow marked above k ts →
      i ≤ e.offset ∧ e.offset ≤ j
  | [], _, _, _, _, he => by
      rw [blockEditsBelow] at he
      exact absurd he List.not_mem_nil
  | t :: ts, k, i, j, hts, he => by
      obtain ⟨hstart, ht, hts⟩ := Tree.areLaidOut_cons.mp hts
      have hspan := Tree.start_le_stop ht
      have hrest := Tree.le_of_areLaidOut hts
      rw [blockEditsBelow] at he
      rcases List.mem_append.mp he with he | he
      · obtain ⟨hge, hle⟩ := offset_of_mem_blockEdits ht he
        exact ⟨by omega, by omega⟩
      · obtain ⟨hge, hle⟩ := offset_of_mem_blockEditsBelow hts he
        exact ⟨by omega, by omega⟩

end

/-- **A pair of edits around others** stands around what they put. -/
theorem weave_pair {below : List Edit} {y : String} (hi : IsBoundary source i)
    (hj : IsBoundary source j) (hij : i ≤ j) :
    weave (textAt (⟨i, 0, x⟩ :: (below ++ [⟨j, 0, y⟩]))) source i j =
      x ++ (weave (textAt below) source i j ++ y) := by
  have hput (o : Nat) : textAt (⟨i, 0, x⟩ :: (below ++ [⟨j, 0, y⟩])) o =
      (if i = o then x else "") ++ (textAt below o ++ if j = o then y else "") := by
    rw [← List.singleton_append, textAt_append, textAt_append, textAt_singleton_eq_ite,
      textAt_singleton_eq_ite]
  refine weave_between hi hj hij (fun o ho ho' => ?_) (fun heq => ?_) (fun hlt => ?_) fun hlt => ?_
  · rw [hput, if_neg (Nat.ne_of_lt ho), if_neg (Nat.ne_of_gt ho'), String.empty_append,
      String.append_empty]
  · rw [hput, if_pos rfl, if_pos heq.symm]
  · rw [hput, if_pos rfl, if_neg (Nat.ne_of_gt hlt), String.append_empty]
  · rw [hput, if_neg (Nat.ne_of_lt hlt), if_pos rfl, String.empty_append]

mutual

/-- **Braces in the order of the text** give the text of a tree with its blocks. -/
theorem weave_blockEdits (ht : t.isLaidOut = true)
    (hfits : ∀ n : Node, n.PlaceOf t → IsBoundary source n.start ∧ IsBoundary source n.stop) :
    ∀ {u : Tree} {n : Node}, n.PlaceOf t → n.tree = u →
      weave (textAt (blockEdits marked n u)) source u.span.start u.span.stop =
        blockText source marked n u
  | .node k f s d cs, n, hn, hu => by
      have hlaid := hn.isLaidOut ht
      rw [hu, Tree.isLaidOut] at hlaid
      obtain ⟨hstart, hstop⟩ : IsBoundary source s.start ∧ IsBoundary source s.stop := by
        have hspan := hfits n hn
        rwa [Node.start, Node.stop, hu] at hspan
      have hinside : weave (textAt (blockEditsBelow marked n 0 cs)) source s.start s.stop =
          blockTexts source marked n 0 s.start s.stop cs :=
        weave_blockEditsBelow ht hfits hn (by rw [hu]; rfl) hlaid hstart hstop
      rw [blockEdits, blockText]
      show weave _ source s.start s.stop = _
      split
      · rw [weave_pair hstart hstop (Tree.le_of_areLaidOut hlaid), hinside]
      · exact hinside

/-- The children from some number on. -/
theorem weave_blockEditsBelow (ht : t.isLaidOut = true)
    (hfits : ∀ n : Node, n.PlaceOf t → IsBoundary source n.start ∧ IsBoundary source n.stop) :
    ∀ {us : List Tree} {n : Node} {i start stop : Nat}, n.PlaceOf t →
      n.tree.children.drop i = us → Tree.areLaidOut start stop us = true →
        IsBoundary source start → IsBoundary source stop →
          weave (textAt (blockEditsBelow marked n i us)) source start stop =
            blockTexts source marked n i start stop us
  | [], n, i, start, stop, _, _, hlaid, hstart, hstop => by
      rw [blockEditsBelow, blockTexts]
      exact weave_of_empty hstart hstop (Tree.le_of_areLaidOut hlaid) fun _ _ _ => rfl
  | u :: us, n, i, start, stop, hn, hus, hlaid, hstart, hstop => by
      obtain ⟨hu, hus'⟩ := hn.of_drop_children hus
      obtain ⟨hle, hulaid, hrest⟩ := Tree.areLaidOut_cons.mp hlaid
      obtain ⟨hustart, hustop⟩ : IsBoundary source u.span.start ∧ IsBoundary source u.span.stop :=
        hfits _ hu
      have hmine {o : Nat} (ho : o < u.span.start ∨ u.span.stop < o) :
          textAt (blockEdits marked (.child n i u) u) o = "" :=
        textAt_of_forall_ne fun e he heq => by
          have hinside := offset_of_mem_blockEdits hulaid he
          omega
      have hothers {o : Nat} (ho : o < u.span.stop) :
          textAt (blockEditsBelow marked n (i + 1) us) o = "" :=
        textAt_of_forall_ne fun e he heq => by
          have hbehind := offset_of_mem_blockEditsBelow hrest he
          omega
      have hchild : weave (textAt (blockEdits marked (.child n i u) u)) source u.span.start
          u.span.stop = blockText source marked (.child n i u) u := weave_blockEdits ht hfits hu rfl
      have hrests : weave (textAt (blockEditsBelow marked n (i + 1) us)) source u.span.stop stop =
          blockTexts source marked n (i + 1) u.span.stop stop us :=
        weave_blockEditsBelow ht hfits hn hus' hrest hustop hstop
      rw [blockEditsBelow, blockTexts, ← hchild, ← hrests]
      refine (weave_append hstart hustart hstop hle
        (Nat.le_trans (Tree.start_le_stop hulaid) (Tree.le_of_areLaidOut hrest))
        (fun o _ ho => ?_) String.empty_append.symm fun o ho _ => rfl).trans
          (congrArg₂ (· ++ ·) (weave_of_empty hstart hustart hle fun _ _ _ => rfl) ?_)
      · rw [textAt_append, hmine (.inl ho),
          hothers (Nat.lt_of_lt_of_le ho (Tree.start_le_stop hulaid)), String.empty_append]
      · refine weave_append hustart hustop hstop (Tree.start_le_stop hulaid)
          (Tree.le_of_areLaidOut hrest) (fun o _ ho => ?_) (textAt_append _ _ _) fun o ho _ => ?_
        · rw [textAt_append, hothers ho, String.append_empty]
        · rw [textAt_append, hmine (.inr ho), String.empty_append]

end

/-! ## The pairs of marked places -/

mutual

/-- The braces of a tree are the pairs of its marked places. -/
theorem perm_blockEdits (marked : Node → Bool) (here : Node) : ∀ u : Tree, here.tree = u →
    (((walkTree here u).filter marked).flatMap edits).Perm (blockEdits marked here u)
  | .node _ _ s _ cs, hu => by
      have hbelow := perm_blockEditsBelow marked here cs 0
      have hedits : edits here = [⟨s.start, 0, opening⟩, ⟨s.stop, 0, closing⟩] := by
        rw [edits, Node.start, Node.stop, hu]
        rfl
      rw [walkTree, List.filter_cons, blockEdits]
      split
      · rw [List.flatMap_cons, hedits]
        exact .cons _ ((hbelow.cons _).trans (List.perm_append_singleton _ _).symm)
      · exact hbelow

theorem perm_blockEditsBelow (marked : Node → Bool) (above : Node) : ∀ (us : List Tree) (i : Nat),
    (((walkTrees above i us).filter marked).flatMap edits).Perm
      (blockEditsBelow marked above i us)
  | [], _ => .nil
  | u :: us, i => by
      rw [walkTrees, List.filter_append, List.flatMap_append, blockEditsBelow]
      exact (perm_blockEdits marked _ u rfl).append (perm_blockEditsBelow marked above us (i + 1))

end

/-- **The statements are places of the tree**, all different, not empty, and none ends where another
one starts. -/
structure StandApart (t : Tree) (cs : List Node) : Prop where
  laidOut : t.isLaidOut = true
  places : ∀ c ∈ cs, c.PlaceOf t
  different : cs.Pairwise fun c d => c.sameAs d = false
  nonempty : ∀ c ∈ cs, c.start < c.stop
  apart : ∀ c ∈ cs, ∀ d ∈ cs, d.stop ≠ c.start

/-- One of the statements stands at the place. -/
def isAmong (cs : List Node) (n : Node) : Bool := cs.any (·.sameAs n)

theorem isAmong_congr {cs ds : List Node} (h : ∀ c, c ∈ cs ↔ c ∈ ds) : isAmong cs = isAmong ds := by
  funext n
  rw [Bool.eq_iff_iff, isAmong, isAmong, List.any_eq_true, List.any_eq_true]
  exact exists_congr fun c => and_congr_left fun _ => h c

namespace StandApart

variable {cs : List Node}

theorem isAmong_iff (h : StandApart t cs) (hn : n.PlaceOf t) : isAmong cs n = true ↔ n ∈ cs := by
  rw [isAmong, List.any_eq_true]
  constructor
  · rintro ⟨c, hc, hsame⟩
    rwa [← (h.places c hc).eq_of_sameAs hn hsame]
  · exact fun hn => ⟨n, hn, n.sameAs_self⟩

/-- **The statements are the marked places** of the tree, in some order. -/
theorem perm_walk (h : StandApart t cs) : cs.Perm ((Node.root t).walk.filter (isAmong cs)) := by
  have hnodup : cs.Nodup := h.different.imp fun {c d} hne heq => by
    rw [heq, sameAs_self] at hne
    contradiction
  rw [List.perm_ext_iff_of_nodup hnodup ((nodup_walk _).filter _)]
  intro c
  rw [List.mem_filter]
  constructor
  · exact fun hc => ⟨(h.places c hc).mem_walk, (h.isAmong_iff (h.places c hc)).mpr hc⟩
  · rintro ⟨hc, hmarked⟩
    exact (h.isAmong_iff ((placeOf_root t).of_mem_walk hc)).mp hmarked

/-- **At each offset** the order of the pairs does not matter. -/
theorem textAt_eq (h : StandApart t cs) (offset : Nat) :
    textAt (cs.flatMap edits) offset = textAt (blockEdits (isAmong cs) (.root t) t) offset := by
  have hperm := (h.perm_walk.flatMap_right edits).trans
    (perm_blockEdits (isAmong cs) (.root t) t rfl)
  -- either statements end at the offset or some start there
  by_cases hends : ∃ d ∈ cs, d.stop = offset
  · obtain ⟨d, hd, rfl⟩ := hends
    refine textAt_eq_of_perm hperm (x := closing) fun e he hoffset => ?_
    obtain ⟨c, hc, he⟩ := List.mem_flatMap.mp he
    rcases List.mem_pair.mp he with rfl | rfl
    · exact absurd hoffset.symm (h.apart c hc d hd)
    · rfl
  · refine textAt_eq_of_perm hperm (x := opening) fun e he hoffset => ?_
    obtain ⟨c, hc, he⟩ := List.mem_flatMap.mp he
    rcases List.mem_pair.mp he with rfl | rfl
    · rfl
    · exact absurd ⟨c, hc, hoffset⟩ hends

/-- **Pairs of braces in any order** give the text of the file with its blocks. -/
theorem weave_eq (h : StandApart t cs)
    (hfits : ∀ n : Node, n.PlaceOf t → IsBoundary source n.start ∧ IsBoundary source n.stop) :
    weave (textAt (cs.flatMap edits)) source 0 source.utf8ByteSize =
      slice source 0 t.span.start ++ (blockText source (isAmong cs) (.root t) t ++
        slice source t.span.stop source.utf8ByteSize) := by
  have hroot : (Node.root t).PlaceOf t := rfl
  obtain ⟨hstart, hstop⟩ : IsBoundary source t.span.start ∧ IsBoundary source t.span.stop :=
    hfits _ hroot
  have hspan : t.span.start ≤ t.span.stop := Tree.start_le_stop h.laidOut
  have hnone {o : Nat} (ho : o < t.span.start ∨ t.span.stop < o) :
      textAt (cs.flatMap edits) o = "" := by
    rw [h.textAt_eq]
    refine textAt_of_forall_ne fun e he heq => ?_
    have hinside := offset_of_mem_blockEdits h.laidOut he
    omega
  have hbody : weave (textAt (cs.flatMap edits)) source t.span.start t.span.stop =
      blockText source (isAmong cs) (.root t) t := by
    exact (weave_congr hstart hstop hspan fun o _ _ => h.textAt_eq o).trans
      (weave_blockEdits h.laidOut hfits hroot rfl)
  rw [weave_around (isBoundary_zero source) hstart hstop (isBoundary_size source) (Nat.zero_le _)
    hspan hstop.le_size (l := textAt (cs.flatMap edits)) (x := "") (y := "") (fun _ _ _ => rfl)
    (fun _ => by rw [String.append_empty, String.empty_append])
    (fun _ => String.empty_append.symm) fun _ => String.append_empty.symm, hbody]
  congr 1
  · refine weave_of_empty (isBoundary_zero source) hstart (Nat.zero_le _) fun o _ ho => ?_
    rcases Nat.eq_or_lt_of_le ho with rfl | ho
    · exact Function.update_self ..
    · rw [Function.update_of_ne (Nat.ne_of_lt ho), hnone (.inl ho)]
  · refine congrArg _ (weave_of_empty hstop (isBoundary_size source) hstop.le_size fun o ho _ => ?_)
    rcases Nat.eq_or_lt_of_le ho with rfl | ho
    · exact Function.update_self ..
    · rw [Function.update_of_ne (Nat.ne_of_gt ho), hnone (.inr ho)]

end StandApart

/-! ## One pair in the text -/

variable (source marked)

/-- The text of a child stands in the text of the children. -/
theorem exists_blockTexts_eq (above : Node) : ∀ {us : List Tree} {k : Nat} (i start stop : Nat),
    us[k]? = some u → ∃ before after, blockTexts source marked above i start stop us =
      before ++ (blockText source marked (.child above (i + k) u) u ++ after)
  | v :: us, 0, i, start, stop, hu => by
      obtain rfl := Option.some.inj hu
      rw [blockTexts]
      exact ⟨_, _, rfl⟩
  | v :: us, k + 1, i, start, stop, hu => by
      have hu : us[k]? = some u := hu
      obtain ⟨before, after, heq⟩ := exists_blockTexts_eq above (i + 1) v.span.stop stop hu
      rw [blockTexts, heq, Nat.add_assoc, Nat.add_comm 1 k]
      exact ⟨slice source start v.span.start ++ (blockText source marked (.child above i v) v ++
        before), after, by simp only [String.append_assoc]⟩

/-- **The text of each place** stands in the text of the tree. -/
theorem exists_blockText_eq : ∀ {n : Node}, n.PlaceOf t → ∃ before after,
    blockText source marked (.root t) t = before ++ (blockText source marked n n.tree ++ after)
  | .root u, h => by
      obtain rfl : u = t := h
      exact ⟨"", "", by rw [String.empty_append, String.append_empty]; rfl⟩
  | .child p i u, h => by
      obtain ⟨before, after, hp⟩ := exists_blockText_eq h.1
      have hu := h.2
      cases htree : p.tree with
      | node k f s d cs =>
        have hu : cs[i]? = some u := by rw [htree] at hu; exact hu
        rw [htree] at hp
        obtain ⟨front, back, hbelow⟩ := exists_blockTexts_eq source marked p 0 s.start s.stop hu
        rw [Nat.zero_add] at hbelow
        rw [hp, blockText, hbelow]
        split
        · exact ⟨before ++ (opening ++ front), back ++ (closing ++ after), by
            simp only [String.append_assoc]; rfl⟩
        · exact ⟨before ++ front, back ++ after, by simp only [String.append_assoc]; rfl⟩

variable {source marked}

/-- The text of a marked place stands between its braces. -/
theorem blockText_of_marked (h : marked n = true) : blockText source marked n n.tree =
    opening ++ (blockTexts source marked n 0 n.start n.stop n.tree.children ++ closing) := by
  rw [Node.start, Node.stop]
  cases htree : n.tree with
  | node k f s d cs =>
    rw [blockText, h]
    rfl

/-! ## The pass in a run -/

/-- **The statements of the visits**, in the order of the visits. -/
def statements (vs : List Visit) : List Node := vs.filterMap (·.found.node? "stmt")

theorem mem_statements {vs : List Visit} : c ∈ statements vs ↔ Wraps vs c := List.mem_filterMap

/-- Events that make one pair of braces each. -/
theorem flatMap_edits_eq : ∀ {evs : List Event},
    (∀ ev ∈ evs, ∃ c, ev.visit.found.node? "stmt" = some c ∧ ev.edits = edits c) →
      evs.flatMap (·.edits) = (statements (evs.map (·.visit))).flatMap edits
  | [], _ => rfl
  | ev :: evs, h => by
      obtain ⟨c, hc, hedits⟩ := h ev List.mem_cons_self
      have hfirst : statements ((ev :: evs).map (·.visit)) = c :: statements (evs.map (·.visit)) := by
        rw [statements, List.map_cons, List.filterMap_cons, hc]
        rfl
      rw [hfirst, List.flatMap_cons, List.flatMap_cons, hedits,
        flatMap_edits_eq fun ev' hev' => h ev' (List.mem_cons_of_mem ev hev')]

/-- **Each visit of the pass makes one pair of braces.** -/
theorem editsFor_eq_of_ran {units : List (Option SourceUnit)} {log : List Event}
    {unit : SourceUnit} {vs : List Visit} (hran : Ran units log (callsFrom pass .traversal 0 units))
    (hunit : units[place]? = some (some unit)) (hvs : pass.visits unit .traversal = .ok vs) :
    editsFor place log = (statements vs).flatMap edits := by
  obtain ⟨s, s', hsteps, rfl⟩ := hran.steps
  have hvisits : (log.filter (·.place == place)).map (·.visit) = vs := by
    rw [filter_of_calls hran.calls hunit, Pass.visitsIn, hvs]
    rfl
  have hmade : ∀ ev ∈ log.filter (·.place == place), ∃ c,
      ev.visit.found.node? "stmt" = some c ∧ ev.edits = edits c := by
    intro ev hev
    have hv : ev.visit ∈ vs := by
      rw [← hvisits]
      exact List.mem_map_of_mem hev
    obtain ⟨-, c, hc⟩ := exists_node?_of_mem_visits hvs hv
    obtain ⟨front, back, rfl⟩ := List.append_of_mem (List.mem_filter.mp hev).1
    obtain ⟨s₁, -, hrest⟩ := hsteps.exists_of_append
    cases hrest with
    | cons step _ =>
      obtain ⟨file, -, hmade⟩ := step.exists_made
      exact ⟨c, hc, edits_eq_of_run (Pass.mem_visits hvs hv).1 hc hmade⟩
  rw [editsFor, flatMap_edits_eq hmade, hvisits]

/-- No rule of the pass waits for the others. -/
theorem editsFor_eq_nil_of_late {units : List (Option SourceUnit)} {log : List Event}
    {unit : SourceUnit} (hran : Ran units log (callsFrom pass .late 0 units))
    (hunit : units[place]? = some (some unit)) (hu : unit.root = .root t) :
    editsFor place log = [] := by
  obtain ⟨vs, hvs⟩ := exists_visits hu .late
  obtain ⟨s, s', -, rfl⟩ := hran.steps
  have hvisits : (log.filter (·.place == place)).map (·.visit) = vs := by
    rw [filter_of_calls hran.calls hunit, Pass.visitsIn, hvs]
    rfl
  have hnone : vs = [] := List.eq_nil_iff_forall_not_mem.mpr fun v hv =>
    absurd (exists_node?_of_mem_visits hvs hv).1 (by decide)
  rw [editsFor, List.map_eq_nil_iff.mp (hvisits.trans hnone), List.flatMap_nil]

/-- **The statements of the visits** are those without a block, each once. -/
theorem statements_spec {unit : SourceUnit} {vs : List Visit} (hu : unit.root = .root t)
    (hvs : pass.visits unit .traversal = .ok vs) :
    (statements vs).Pairwise (fun c d => c.sameAs d = false) ∧
      ∀ c, c ∈ statements vs ↔ Unblocked t Controls c := by
  refine ⟨(wrapsOnce_visits hu hvs).filterMap _ fun v w hne c hc d hd => hne c d hc hd, fun c => ?_⟩
  rw [mem_statements, wraps_iff hu hvs]

/-- **Controlled statements right behind headers** stand apart. -/
theorem StandApart.of_headers {cs : List Node} (ht : t.isLaidOut = true)
    (hdifferent : cs.Pairwise fun c d => c.sameAs d = false)
    (hcs : ∀ c ∈ cs, Unblocked t Controls c ∧ c.followsHeader = true) : StandApart t cs where
  laidOut := ht
  places c hc := by
    obtain ⟨⟨-, n, hn, -, hcontrols⟩, -⟩ := hcs c hc
    exact hcontrols.placeOf hn
  different := hdifferent
  nonempty c hc := start_lt_of_followsHeader (hcs c hc).2
  apart c hc d hd := by
    obtain ⟨⟨-, m, hm, -, hc⟩, hfollows⟩ := hcs c hc
    obtain ⟨⟨-, n, hn, -, hd⟩, hfollows'⟩ := hcs d hd
    exact hd.stop_ne_start ht hn hm hc (start_lt_of_followsHeader hfollows') hfollows

end Braces

namespace Pipeline

/-- A loop that an `if` controls. -/
def guardedLoopText : String := "void f(int x)\x7bif(x)for(;;)x;\x7d\n"

/-- The tree of the loop in its function; the loop and its body end together. -/
def guardedLoopTree : Tree :=
  .node .sourceUnit none ⟨0, 30⟩ false
    [.node .functionDefinition none ⟨0, 29⟩ false
      [.node (.other "primitive_type") (some .type) ⟨0, 4⟩ false [],
        .node .functionDeclarator (some .declarator) ⟨5, 13⟩ false
          [.node .identifier (some .declarator) ⟨5, 6⟩ false [],
            .node (.other "parameter_list") (some .parameters) ⟨6, 13⟩ false
              [.node (.token "(") none ⟨6, 7⟩ false [],
                .node .parameterDeclaration none ⟨7, 12⟩ false
                  [.node (.other "primitive_type") (some .type) ⟨7, 10⟩ false [],
                    .node .identifier (some .declarator) ⟨11, 12⟩ false []],
                .node (.token ")") none ⟨12, 13⟩ false []]],
        .node .compoundStatement (some .body) ⟨13, 29⟩ false
          [.node (.token "\x7b") none ⟨13, 14⟩ false [],
            .node .ifStatement none ⟨14, 28⟩ false
              [.node (.token "if") none ⟨14, 16⟩ false [],
                .node .parenthesizedExpression (some .condition) ⟨16, 19⟩ false
                  [.node (.token "(") none ⟨16, 17⟩ false [],
                    .node .identifier none ⟨17, 18⟩ false [],
                    .node (.token ")") none ⟨18, 19⟩ false []],
                .node .forStatement (some .consequence) ⟨19, 28⟩ false
                  [.node (.token "for") none ⟨19, 22⟩ false [],
                    .node (.token "(") none ⟨22, 23⟩ false [],
                    .node (.token ";") none ⟨23, 24⟩ false [],
                    .node (.token ";") none ⟨24, 25⟩ false [],
                    .node (.token ")") none ⟨25, 26⟩ false [],
                    .node .expressionStatement (some .body) ⟨26, 28⟩ false
                      [.node .identifier none ⟨26, 27⟩ false [],
                        .node (.token ";") none ⟨27, 28⟩ false []]]],
            .node (.token "\x7d") none ⟨28, 29⟩ false []]]]

/-- The loop as a file. -/
def guardedLoopFile : SourceFile := ⟨"t.c", .ok guardedLoopText, fun _ => guardedLoopTree⟩

/-- The loop as a unit. -/
def guardedLoopUnit : SourceUnit :=
  ⟨"t.c", guardedLoopText, .root guardedLoopTree,
    NameTable.build guardedLoopText (.root guardedLoopTree)⟩

theorem followsHeader_guarded : ∀ c ∈ unblocked guardedLoopTree, c.followsHeader = true := by decide

end Pipeline

end ProbeWeaver
