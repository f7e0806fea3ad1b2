import ProbeWeaver.Proofs.Passes.HookTexts
import ProbeWeaver.Proofs.Passes.Writes

/-!
# Proofs/Passes/HookLines — the lines that define the hooks of a file

The late rule of the mutate pass reads the numbers behind the closers in the accepted edits and
writes a line for each (`Hooks.exists_editsOf_definitionRule`).  If what was inserted before closes
each hook once and away from the start of the file, and what is inserted later closes none, the whole
inserted text falls into a part that defines hooks and a part that closes them, each once
(`Hooks.exists_defines`).
-/

namespace ProbeWeaver

open Text

/-! ## Lists in order -/

/-- Without repetitions, there is nothing to erase. -/
theorem eraseReps_of_nodup {l : List Nat} (h : l.Nodup) : l.eraseReps = l := by
  have hloop : ∀ (l : List Nat) (a : Nat) (acc : List Nat), (a :: l).Nodup →
      List.eraseRepsBy.loop (· == ·) a l acc = acc.reverse ++ a :: l := by
    intro l
    induction l with
    | nil => intro a acc _; rw [List.eraseRepsBy.loop, List.reverse_cons]
    | cons b l ih =>
      intro a acc hnodup
      obtain ⟨hab, hnodup⟩ := List.nodup_cons.mp hnodup
      have hne : (a == b) = false := beq_false_of_ne fun heq => hab (heq ▸ List.mem_cons_self)
      rw [List.eraseRepsBy.loop, hne]
      dsimp only
      rw [ih b (a :: acc) hnodup, List.reverse_cons, List.append_assoc]
      rfl
  cases l with
  | nil => rfl
  | cons a l => exact hloop l a [] h

/-- **What is sorted by keys** is all there, in another order. -/
theorem perm_flatMap_filter {α κ : Type} [BEq κ] [LawfulBEq κ] (key : α → κ) :
    ∀ {keys : List κ} {l : List α}, keys.Nodup → (∀ a ∈ l, key a ∈ keys) →
      (keys.flatMap fun k => l.filter (key · == k)).Perm l
  | [], l, _, hkeys => by
      rw [List.eq_nil_iff_forall_not_mem.mpr fun a ha => List.not_mem_nil (hkeys a ha)]
      rfl
  | k :: keys, l, hnodup, hkeys => by
      obtain ⟨hk, hnodup⟩ := List.nodup_cons.mp hnodup
      have hothers : keys.flatMap (fun k' => l.filter (key · == k')) =
          keys.flatMap fun k' => (l.filter (!key · == k)).filter (key · == k') := by
        refine List.flatMap_congr fun k' hk' => ?_
        rw [List.filter_filter]
        refine List.filter_congr fun a _ => ?_
        by_cases h : key a = k'
        · have hne : (key a == k) = false := beq_false_of_ne fun heq => hk (heq ▸ h ▸ hk')
          rw [hne, Bool.not_false, Bool.and_true]
        · rw [beq_false_of_ne h, Bool.false_and]
      rw [List.flatMap_cons, hothers]
      refine (List.Perm.append_left _ (perm_flatMap_filter key hnodup fun a ha => ?_)).trans
        (List.filter_append_perm _ l)
      obtain ⟨ha, hne⟩ := List.mem_filter.mp ha
      have hne : key a ≠ k := by simpa using hne
      exact (List.mem_cons.mp (hkeys a ha)).resolve_left hne

variable {text : String} {lines : List (Hooks.Hook × Nat)} {h : Hooks.Hook} {n : Nat}
  {pre mid post edits : List Edit} {set accepted : EditSet}

namespace Hooks

/-! ## The lines -/

/-- **The lines that define hooks.** -/
def definitionLines (lines : List (Hook × Nat)) : String :=
  String.join (lines.map fun line => "#define " ++ line.1.tag ++ toString line.2 ++ " \n")

/-- The numbers of a hook among lines. -/
def linesOf (h : Hook) (lines : List (Hook × Nat)) : List Nat :=
  lines.flatMap fun line => if line.1 = h then [line.2] else []

theorem unspaced_line (h : Hook) (n : Nat) : Unspaced ("#define " ++ h.tag ++ toString n ++ " \n") := by
  rw [String.append_assoc, String.append_assoc]
  exact unspaced_of_start (by decide) (by decide)

theorem unspaced_definitionLines (lines : List (Hook × Nat)) : Unspaced (definitionLines lines) :=
  unspaced_join fun s hs => by
    obtain ⟨line, -, rfl⟩ := List.mem_map.mp hs
    exact unspaced_line line.1 line.2

theorem defineStem_injective {g : Hook} (hg : g ∈ all) (hh : h ∈ all)
    (heq : defineStem g = defineStem h) : g = h := by
  have hall : ∀ g ∈ all, ∀ h ∈ all, defineStem g = defineStem h → g = h := by decide
  exact hall g hg h hh heq

/-- **A line defines its hook**, and no other. -/
theorem numbered_line {g : Hook} (hg : g ∈ all) (hh : h ∈ all) (n : Nat) :
    Numbered (defineStem h) ' ' ("#define " ++ g.tag ++ toString n ++ " \n")
      (if g = h then [n] else []) := by
  have hneedle := defineStem_mem hh
  split
  · next heq =>
    subst heq
    have hend : Quiet (defineStem g) " \n" := quiet_piece hneedle (by decide)
    have hrest := (quiet_number hneedle n).append hend
    have hline : "#define " ++ g.tag ++ toString n ++ " \n" =
        defineStem g ++ (toString n ++ " \n") := String.append_assoc
    rw [hline]
    refine ⟨((separable_needle (needle_ne_nil hneedle)).append hrest.separable).severable, ?_⟩
    rw [rests_needle_append (needle_ne_nil hneedle), hrest.rests_eq_nil]
    refine .cons ?_ .nil
    rw [StartsWith, String.toList_append]
    exact ⟨['\n'], by rw [List.append_assoc]; rfl⟩
  · next hne =>
    exact numbered_of_quiet <| quiet_hookLine hneedle hg (fun heq =>
      hne (defineStem_injective hg hh heq.symm)) n

/-- **The lines define their hooks.** -/
theorem numbered_definitionLines (known : ∀ line ∈ lines, line.1 ∈ all) (hh : h ∈ all) :
    Numbered (defineStem h) ' ' (definitionLines lines) (linesOf h lines) :=
  numbered_join fun line hline =>
    ⟨numbered_line (known line hline) hh line.2, unspaced_line line.1 line.2⟩

/-- They close none. -/
theorem quiet_definitionLines (known : ∀ line ∈ lines, line.1 ∈ all) (hh : h ∈ all) :
    Quiet (closerStem h) (definitionLines lines) :=
  quiet_hookLines (closerStem_mem hh) known (closerStem_ne_defineStem hh)

/-! ## The numbers in accepted edits -/

theorem leadingNumber?_of_startsWith {rest : List Char} (hn : n < wordLimit 32)
    (hrest : StartsWith n ')' rest) : leadingNumber? rest = some n := by
  obtain ⟨more, rfl⟩ := hrest
  rw [leadingNumber?, List.append_assoc, List.singleton_append,
    takeWhile_isDigit_toString n (by decide)]
  exact unsigned?_toString hn

/-- What arrived at an offset closes what its parts close. -/
theorem closing_textAt (hedits : ∀ e ∈ edits, Closing e.text) (offset : Nat) :
    Closing (textAt edits offset) ∧ ∀ h ∈ all, closersIn h (textAt edits offset) =
      (edits.filter (·.offset == offset)).flatMap fun e => closersIn h e.text :=
  closing_join fun e he => hedits e (List.mem_filter.mp he).1

/-- **The numbers read from accepted edits** are those of the closers that arrived. -/
theorem perm_numbersAfter (hset : set.Gathers edits) (hedits : ∀ e ∈ edits, Closing e.text)
    (hh : h ∈ all) (hsmall : ∀ e ∈ edits, ∀ n ∈ closersIn h e.text, n < wordLimit 32) :
    (numbersAfter set (closerStem h)).Perm (edits.flatMap fun e => closersIn h e.text) := by
  have hentry : ∀ x ∈ set.entries,
      (restsAfter (closerStem h).toList 0 x.text.toList).filterMap leadingNumber? =
        (edits.filter (·.offset == x.offset)).flatMap fun e => closersIn h e.text := by
    intro x hx
    obtain ⟨hclosing, hread⟩ := closing_textAt hedits x.offset
    rw [hset.text x hx, ← hread h hh]
    refine (hclosing.closers h hh).filterMap_eq fun n hn rest =>
      leadingNumber?_of_startsWith ?_
    rw [hread h hh] at hn
    obtain ⟨e, he, hn⟩ := List.mem_flatMap.mp hn
    exact hsmall e (List.mem_filter.mp he).1 n hn
  have hnumbers : numbersAfter set (closerStem h) = ((set.entries.map (·.offset)).flatMap
      fun offset => edits.filter (·.offset == offset)).flatMap fun e => closersIn h e.text := by
    rw [numbersAfter, List.flatMap_congr hentry, List.flatMap_assoc, List.flatMap_map]
  rw [hnumbers]
  refine (perm_flatMap_filter Edit.offset hset.nodup_offsets fun e he => ?_).flatMap_right _
  obtain ⟨x, hx, hoffset⟩ := (hset.offsets e.offset).mpr ⟨e, he, rfl⟩
  exact List.mem_map.mpr ⟨x, hx, hoffset⟩

theorem linesOf_map (g h : Hook) (ns : List Nat) :
    linesOf h (ns.map (g, ·)) = if g = h then ns else [] := by
  rw [linesOf, List.flatMap_map]
  split
  · exact List.flatMap_singleton' ns
  · exact List.flatMap_eq_nil_iff.mpr fun _ _ => rfl

theorem linesOf_eq_nil (hnone : ∀ line ∈ lines, line.1 ≠ h) : linesOf h lines = [] :=
  List.flatMap_eq_nil_iff.mpr fun line hline => if_neg (hnone line hline)

/-- The lines of one hook among those of all. -/
theorem linesOf_defined : ∀ {hooks : List Hook}, hooks.Nodup → h ∈ hooks →
    linesOf h (defined set hooks) =
      ((numbersAfter set (closerStem h)).mergeSort (· ≤ ·)).eraseReps
  | g :: hooks, hnodup, hmem => by
      obtain ⟨hg, hnodup⟩ := List.nodup_cons.mp hnodup
      have hsplit : linesOf h (defined set (g :: hooks)) =
          linesOf h (((numbersAfter set (closerStem g)).mergeSort (· ≤ ·)).eraseReps.map (g, ·)) ++
            linesOf h (defined set hooks) := List.flatMap_append
      rw [hsplit, linesOf_map]
      by_cases heq : g = h
      · subst heq
        have hnone : linesOf g (defined set hooks) = [] := linesOf_eq_nil fun line hline hline' =>
          hg (hline' ▸ mem_of_mem_defined hline)
        rw [if_pos rfl, hnone, List.append_nil]
      · rw [if_neg heq, List.nil_append]
        exact linesOf_defined hnodup ((List.mem_cons.mp hmem).resolve_left (Ne.symm heq))

/-- **Each closed number is defined once**, if each is closed once. -/
theorem perm_linesOf_defined (hset : set.Gathers edits) (hedits : ∀ e ∈ edits, Closing e.text)
    (hh : h ∈ all) (hsmall : ∀ e ∈ edits, ∀ n ∈ closersIn h e.text, n < wordLimit 32)
    (honce : (edits.flatMap fun e => closersIn h e.text).Nodup) :
    (linesOf h (defined set all)).Perm (edits.flatMap fun e => closersIn h e.text) := by
  have hnumbers := perm_numbersAfter hset hedits hh hsmall
  have hsorted := List.mergeSort_perm (numbersAfter set (closerStem h)) (· ≤ ·)
  have hnodup : ((numbersAfter set (closerStem h)).mergeSort (· ≤ ·)).Nodup :=
    (hsorted.trans hnumbers).nodup_iff.mpr honce
  rw [linesOf_defined (by decide) hh, eraseReps_of_nodup hnodup]
  exact hsorted.trans hnumbers

/-- **What the rule of definitions makes**: lines at the start of the file, for all hooks in use. -/
theorem exists_editsOf_definitionRule (cx : EditContext) (m : Match) (numbering : Numbering) :
    ∃ lines, (definitionRule.editsOf cx m).run numbering = .ok (lines, numbering) ∧
      (∀ e ∈ lines, e.offset = 0) ∧
        textAt lines 0 = definitionLines (defined cx.accepted all) := by
  have hlines : all.flatMap (definitionsOf cx.accepted) =
      (defined cx.accepted all).map fun line =>
        "#define " ++ line.1.tag ++ toString line.2 ++ " \n" := definitionsOf_eq cx.accepted all
  have hrun : ∃ text?, (definitions cx m).run numbering = .ok (text?, numbering) ∧
      text?.getD "" = definitionLines (defined cx.accepted all) := by
    rw [definitions, hlines, definitionLines]
    split
    · next hnone =>
      rw [List.isEmpty_iff.mp hnone]
      exact ⟨none, rfl, rfl⟩
    · exact ⟨_, rfl, rfl⟩
  obtain ⟨text?, htext, hdefined⟩ := hrun
  rw [← hdefined]
  exact Rule.exists_editsOf_of_heading rfl htext

/-! ## Lines and closers -/

/-- **The inserted text defines its hooks**: no hook is closed in its front and none is defined
behind; each hook that is closed is closed once, and those are the ones that are defined, each
once. -/
structure Defines (front back : String) : Prop where
  closers_front : ∀ h ∈ all, closersIn h front = []
  defines_back : ∀ h ∈ all, definesIn h back = []
  closers : ∀ h ∈ all, closersIn h (front ++ back) = closersIn h back
  defines : ∀ h ∈ all, definesIn h (front ++ back) = definesIn h front
  once : ∀ h ∈ all, (closersIn h back).Nodup
  same : ∀ h ∈ all, (definesIn h front).Perm (closersIn h back)

/-- A front that closes nothing, before a back that defines nothing. -/
theorem Defines.of_parts {front back : String} (numbers : Hook → List Nat)
    (hcloses : ∀ h ∈ all, Numbered (closerStem h) ')' front [])
    (hdefines : ∀ h ∈ all, Numbered (defineStem h) ' ' front (numbers h)) (hback : Closing back)
    (honce : ∀ h ∈ all, (closersIn h back).Nodup)
    (hsame : ∀ h ∈ all, (numbers h).Perm (closersIn h back)) : Defines front back := by
  have hread : ∀ h ∈ all, definesIn h front = numbers h := fun h hh =>
    (hdefines h hh).numbersIn_eq (by decide)
  refine ⟨fun h hh => (hcloses h hh).numbersIn_eq (by decide), fun h hh => hback.definesIn_eq_nil hh,
    fun h hh => ?_, fun h hh => ?_, honce, fun h hh => by rw [hread h hh]; exact hsame h hh⟩
  · exact ((hcloses h hh).append (hback.closers h hh) hback.unspaced).numbersIn_eq (by decide)
  · have hboth := (hdefines h hh).append (numbered_of_quiet (hback.defines h hh)) hback.unspaced
    rw [hread h hh, definesIn, hboth.numbersIn_eq (by decide), List.append_nil]

/-- The edit closes hooks, if at all, away from the start of the file. -/
structure ClosesBehind (e : Edit) : Prop where
  closing : Closing e.text
  start : e.offset = 0 → ∀ h ∈ all, closersIn h e.text = []

/-- At the start of the file such edits close nothing. -/
theorem numbered_start (hedits : ∀ e ∈ edits, ClosesBehind e) (hh : h ∈ all) :
    Numbered (closerStem h) ')' (textAt edits 0) [] := by
  obtain ⟨hclosing, hread⟩ := closing_textAt (fun e he => (hedits e he).closing) 0
  have hnone : ((edits.filter (·.offset == 0)).flatMap fun e => closersIn h e.text) = [] := by
    refine List.flatMap_eq_nil_iff.mpr fun e he => ?_
    obtain ⟨he, hzero⟩ := List.mem_filter.mp he
    exact (hedits e he).start (beq_iff_eq.mp hzero) h hh
  have hnumbered := hclosing.closers h hh
  rwa [hread h hh, hnone] at hnumbered

/-- **Behind the start of the file** everything is closed that such edits close. -/
theorem perm_closersIn_behind {offsets : List Nat} (hedits : ∀ e ∈ edits, ClosesBehind e)
    (hnodup : offsets.Nodup) (hzero : 0 ∉ offsets)
    (hcover : ∀ e ∈ edits, e.offset ≠ 0 → e.offset ∈ offsets) :
    Closing (String.join (offsets.map (textAt edits))) ∧
      ∀ h ∈ all, (closersIn h (String.join (offsets.map (textAt edits)))).Perm
        (edits.flatMap fun e => closersIn h e.text) := by
  have htextAt := closing_textAt fun e he => (hedits e he).closing
  obtain ⟨hclosing, hread⟩ := closing_join (l := offsets) fun offset _ => (htextAt offset).1
  refine ⟨hclosing, fun h hh => ?_⟩
  have hkeys : ((0 :: offsets).flatMap fun offset => edits.filter (·.offset == offset)).Perm edits :=
    perm_flatMap_filter Edit.offset (List.nodup_cons.mpr ⟨hzero, hnodup⟩) fun e he =>
      List.mem_cons.mpr (or_iff_not_imp_left.mpr (hcover e he))
  have hstart : ((edits.filter (·.offset == 0)).flatMap fun e => closersIn h e.text) = [] := by
    refine List.flatMap_eq_nil_iff.mpr fun e he => ?_
    obtain ⟨he, hoffset⟩ := List.mem_filter.mp he
    exact (hedits e he).start (beq_iff_eq.mp hoffset) h hh
  have hall := hkeys.flatMap_right fun e => closersIn h e.text
  rw [List.flatMap_cons, List.flatMap_append, hstart, List.nil_append, List.flatMap_assoc] at hall
  rwa [hread h hh, List.flatMap_congr fun offset _ => (htextAt offset).2 h hh]

/-- **Lines that arrive at the right time** define the hooks: what came before closes them, away
from the start of the file, and what comes later closes none. -/
theorem exists_defines (hset : set.Gathers (pre ++ mid ++ post))
    (hpre : ∀ e ∈ pre, ClosesBehind e) (hmid : ∀ e ∈ mid, e.offset = 0)
    (hlines : textAt mid 0 = definitionLines lines) (known : ∀ line ∈ lines, line.1 ∈ all)
    (honce : ∀ h ∈ all, (pre.flatMap fun e => closersIn h e.text).Nodup)
    (hsame : ∀ h ∈ all, (linesOf h lines).Perm (pre.flatMap fun e => closersIn h e.text))
    (hpost : ∀ e ∈ post, ClosesBehind e ∧ ∀ h ∈ all, closersIn h e.text = []) :
    ∃ front back, set.inserted = front ++ back ∧ Defines front back ∧
      ∀ h ∈ all, (closersIn h back).Perm (pre.flatMap fun e => closersIn h e.text) := by
  obtain ⟨offsets, hnodup, hoffsets, hinserted⟩ := hset.exists_inserted_eq
  have hothers : ∀ e ∈ pre ++ post, ClosesBehind e := fun e he =>
    (List.mem_append.mp he).elim (hpre e) fun he => (hpost e he).1
  have helsewhere : offsets.map (textAt (pre ++ mid ++ post)) =
      offsets.map (textAt (pre ++ post)) := by
    refine List.map_congr_left fun offset hoffset => ?_
    have hno : textAt mid offset = "" := textAt_of_forall_ne fun e he heq =>
      ((hoffsets offset).mp hoffset).1 (heq ▸ hmid e he)
    rw [textAt_append, textAt_append, textAt_append, hno, String.append_empty]
  obtain ⟨hback, hclosed⟩ := perm_closersIn_behind hothers hnodup
    (fun hzero => ((hoffsets 0).mp hzero).1 rfl) fun e he hne => by
      refine (hoffsets _).mpr ⟨hne, e, ?_, rfl⟩
      rw [List.append_assoc, List.mem_append, List.mem_append]
      exact (List.mem_append.mp he).imp_right .inr
  -- the front: what came before, the lines, and what comes later
  have hfront : textAt (pre ++ mid ++ post) 0 =
      textAt pre 0 ++ (definitionLines lines ++ textAt post 0) := by
    rw [textAt_append, textAt_append, hlines, String.append_assoc]
  rw [hfront, helsewhere] at hinserted
  have hlast := (closing_textAt (fun e he => (hpost e he).1.closing) 0).1
  have hspace := unspaced_append (unspaced_definitionLines lines) hlast.unspaced
  have hperm : ∀ h ∈ all, (closersIn h (String.join (offsets.map (textAt (pre ++ post))))).Perm
      (pre.flatMap fun e => closersIn h e.text) := by
    intro h hh
    have hnone : (post.flatMap fun e => closersIn h e.text) = [] :=
      List.flatMap_eq_nil_iff.mpr fun e he => (hpost e he).2 h hh
    have hperm := hclosed h hh
    rwa [List.flatMap_append, hnone, List.append_nil] at hperm
  refine ⟨_, _, hinserted, .of_parts (linesOf · lines) (fun h hh => ?_)
    (fun h hh => ?_) hback (fun h hh => (hperm h hh).nodup_iff.mpr (honce h hh))
    fun h hh => (hsame h hh).trans (hperm h hh).symm, hperm⟩
  · exact (numbered_start hpre hh).append
      ((numbered_start (fun e he => (hpost e he).1) hh).quiet_append
        (quiet_definitionLines known hh)) hspace
  · have hfirst := (closing_textAt (fun e he => (hpre e he).closing) 0).1.defines h hh
    have hlines := (numbered_definitionLines known hh).append
      (numbered_of_quiet (hlast.defines h hh)) hlast.unspaced
    rw [List.append_nil] at hlines
    exact hlines.quiet_append hfirst

end Hooks

end ProbeWeaver
