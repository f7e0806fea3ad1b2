import ProbeWeaver.Proofs.Edit.Arrivals
import ProbeWeaver.Proofs.Passes.Flags

/-!
# Proofs/Passes/FlagLines — the lines of flag arrays in a file

The rule of flag arrays puts its lines at the start of the file (`Tracing.exists_editsOf_flagRule`).
If what was inserted before goes elsewhere as soon as it mentions a flag, and what is inserted later
mentions none, the whole inserted text is lines of flags with every use behind them
(`Tracing.exists_declares`).
-/

namespace ProbeWeaver

open Text
open Tracing (flagCategories)

variable {c : Category} {P : Nat → Prop} {text : String} {numbering numbering' : Numbering}
  {used used' : Category → Bool} {isMain : Bool} {pre mid post edits : List Edit} {offset : Nat}

namespace Tracing

/-! ## The lines -/

/-- The line of one flag array: its definition where `main` is, elsewhere its declaration. -/
def flagLine (isMain : Bool) (numbering : Numbering) (c : Category) : String :=
  if isMain then Probe.flagDefinition c (numbering.count c)
  else Probe.flagDeclaration c (numbering.count c)

/-- **The lines of flag arrays** at the start of a file, for the counts at hand: all arrays where
`main` is, elsewhere those in use. -/
def flagHeading (isMain : Bool) (numbering : Numbering) (used : Category → Bool) : String :=
  String.join ((flagCategories.filter fun c => isMain || used c).map (flagLine isMain numbering))

theorem flagHeading_congr (hcount : ∀ c ∈ flagCategories, numbering.count c = numbering'.count c)
    (hused : ∀ c ∈ flagCategories, used c = used' c) :
    flagHeading isMain numbering used = flagHeading isMain numbering' used' := by
  have hfilter : (flagCategories.filter fun c => isMain || used c) =
      flagCategories.filter fun c => isMain || used' c :=
    List.filter_congr fun c hc => by rw [hused c hc]
  rw [flagHeading, flagHeading, hfilter]
  congr 1
  refine List.map_congr_left fun c hc => ?_
  rw [flagLine, flagLine, hcount c (List.mem_filter.mp hc).1]

theorem flagLine_eq (isMain : Bool) (numbering : Numbering) (c : Category) :
    ∃ lead ∈ flagLeads, flagLine isMain numbering c =
      lead ++ (Probe.flagStem c ++ (toString (numbering.count c) ++ "];\n")) := by
  cases isMain with
  | true => exact ⟨_, List.mem_cons_self, flagDefinition_eq c _⟩
  | false => exact ⟨_, .tail _ (.head _), flagDeclaration_eq c _⟩

/-- The lines of categories name the array of each once. -/
theorem rests_flagLines (hc : c ∈ flagCategories) : ∀ {cs : List Category}, cs.Nodup →
    (∀ d ∈ cs, d ∈ flagCategories) →
      Separable (Probe.flagStem c) (String.join (cs.map (flagLine isMain numbering))) ∧
      (rests (Probe.flagStem c) (String.join (cs.map (flagLine isMain numbering)))).length =
        if c ∈ cs then 1 else 0
  | [], _, _ => by
      rw [if_neg List.not_mem_nil]
      exact ⟨fun _ => rfl, rfl⟩
  | d :: cs, hnodup, hcs => by
      obtain ⟨hd, hnodup⟩ := List.nodup_cons.mp hnodup
      have hneedle := flagStem_mem hc
      obtain ⟨hseparable, hlength⟩ := rests_flagLines hc hnodup fun e he =>
        hcs e (List.mem_cons_of_mem d he)
      obtain ⟨lead, hlead, hline⟩ := flagLine_eq isMain numbering d
      rw [List.map_cons, String.join_cons]
      by_cases hcd : c = d
      · subst hcd
        have hleads : ∀ lead ∈ flagLeads, lead ∈ quietPieces := by decide
        have hquiet : Quiet (Probe.flagStem c) lead := quiet_piece hneedle (hleads lead hlead)
        have hend : Quiet (Probe.flagStem c) "];\n" := quiet_piece hneedle (by decide)
        have hnumber := (quiet_number hneedle (numbering.count c)).append hend
        have hself : Separable (Probe.flagStem c) (flagLine isMain numbering c) := by
          rw [hline]
          exact hquiet.separable.append
            ((separable_needle (needle_ne_nil hneedle)).append hnumber.separable)
        have honce : rests (Probe.flagStem c) (flagLine isMain numbering c) =
            [(toString (numbering.count c) ++ "];\n").toList] := by
          rw [hline, hquiet.rests_append, rests_needle_append (needle_ne_nil hneedle),
            hnumber.rests_eq_nil]
        refine ⟨hself.append hseparable, ?_⟩
        rw [hself, List.length_append, List.length_map, honce, hlength, if_neg hd,
          if_pos List.mem_cons_self]
        rfl
      · have hne : ∀ c ∈ flagCategories, ∀ d ∈ flagCategories, c ≠ d →
            Probe.flagStem c ≠ Probe.flagStem d := by
          decide
        have hd := hcs d List.mem_cons_self
        have hquiet : Quiet (Probe.flagStem c) (flagLine isMain numbering d) := by
          rw [hline]
          exact quiet_flagLine hneedle hlead (List.mem_cons_of_mem _ hd) (hne c hc d hd hcd) _
        refine ⟨hquiet.separable.append hseparable, ?_⟩
        rw [hquiet.rests_append, hlength]
        simp only [List.mem_cons, hcd, false_or]

/-- **Each array is named once** in the lines, if it is named. -/
theorem rests_flagHeading (hc : c ∈ flagCategories) :
    (rests (Probe.flagStem c) (flagHeading isMain numbering used)).length =
      if isMain || used c then 1 else 0 := by
  have hnodup : flagCategories.Nodup := by decide
  rw [flagHeading, (rests_flagLines hc (hnodup.filter _) fun d hd => (List.mem_filter.mp hd).1).2]
  simp only [List.mem_filter, hc, true_and]

/-- The text of the rule: its lines, unless there are none. -/
theorem run_flagLines (cx : EditContext) (m : Match) (numbering : Numbering) :
    ∃ text?, (flagLines cx m).run numbering = .ok (text?, numbering) ∧
      text?.getD "" = flagHeading cx.unit.holdsMain numbering (usesFlag cx.accepted) := by
  have hrun : (flagLines cx m).run numbering = .ok ((if cx.unit.holdsMain then
        some (String.join (flagCategories.map fun c =>
          Probe.flagDefinition c (numbering.count c)))
      else if (flagCategories.filter (usesFlag cx.accepted)).isEmpty then none
      else some (String.join ((flagCategories.filter (usesFlag cx.accepted)).map fun c =>
        Probe.flagDeclaration c (numbering.count c)))), numbering) := by
    rw [flagLines]
    show (if _ then _ else _ : Eval (Option String)).run numbering = _
    split
    · rfl
    · split <;> rfl
  refine ⟨_, hrun, ?_⟩
  cases hmain : cx.unit.holdsMain with
  | true => rfl
  | false =>
    rw [if_neg Bool.false_ne_true]
    split
    · next hnone =>
      have hnone : (flagCategories.filter fun c => false || usesFlag cx.accepted c) = [] :=
        List.isEmpty_iff.mp hnone
      rw [flagHeading, hnone]
      rfl
    · rfl

/-- **What the rule of flag arrays makes**: its lines, at the start of the file. -/
theorem exists_editsOf_flagRule (cx : EditContext) (m : Match) (numbering : Numbering) :
    ∃ lines, (flagRule.editsOf cx m).run numbering = .ok (lines, numbering) ∧
      (∀ e ∈ lines, e.offset = 0) ∧
        textAt lines 0 = flagHeading cx.unit.holdsMain numbering (usesFlag cx.accepted) := by
  obtain ⟨text?, htext, hheading⟩ := run_flagLines cx m numbering
  rw [← hheading]
  exact Rule.exists_editsOf_of_heading rfl htext

/-! ## Lines and uses -/

/-- **The inserted text declares its flag arrays**: it falls into a part that mentions no flag, the
lines, and the rest; the lines name each array once, with the number of its flags for a length, if
the rest mentions it or `main` is here; and the rest mentions flags below that number, to use them. -/
structure Declares (inserted : String) (isMain : Bool) (numbering : Numbering)
    (before after : String) : Prop where
  text : inserted = before ++
    flagHeading isMain numbering (fun c => contains after (Probe.flagStem c)) ++ after
  clear : ∀ c ∈ flagCategories, contains before (Probe.flagStem c) = false
  once : ∀ c ∈ flagCategories, (rests (Probe.flagStem c) (flagHeading isMain numbering
    fun c => contains after (Probe.flagStem c))).length =
      if isMain || contains after (Probe.flagStem c) then 1 else 0
  uses : ∀ c ∈ flagCategories, Probe.Uses c after (· < numbering.count c)

theorem uses_textAt (h : ∀ e ∈ edits, e.offset = offset → Probe.Uses c e.text P) :
    Probe.Uses c (textAt edits offset) P := by
  refine Probe.uses_join fun s hs => ?_
  obtain ⟨e, he, rfl⟩ := List.mem_map.mp hs
  obtain ⟨he, hoffset⟩ := List.mem_filter.mp he
  exact h e he (beq_iff_eq.mp hoffset)

/-- Where no use is allowed, the array is not named. -/
theorem contains_eq_false (hc : c ∈ flagCategories) (h : Probe.Uses c text fun _ => False) :
    contains text (Probe.flagStem c) = false :=
  (contains_eq_false_iff (needle_ne_nil (flagStem_mem hc))).mpr (h.rests_eq_nil fun _ => id)

section

variable (hpre : ∀ e ∈ pre, ∀ c ∈ flagCategories,
    Probe.Uses c e.text fun n => n < numbering.count c ∧ e.offset ≠ 0)
  (hmid : ∀ e ∈ mid, e.offset = 0)
  (hpost : ∀ e ∈ post, ∀ c ∈ flagCategories, Probe.Uses c e.text fun _ => False)

include hpre in
/-- What came before the lines uses flags below the counts. -/
theorem uses_before (hc : c ∈ flagCategories) (offset : Nat) :
    Probe.Uses c (textAt pre offset) (· < numbering.count c) :=
  uses_textAt fun e he _ => (hpre e he c hc).mono fun _ h => h.1

include hpre in
/-- It uses none at the start of the file. -/
theorem uses_start (hc : c ∈ flagCategories) : Probe.Uses c (textAt pre 0) fun _ => False :=
  uses_textAt fun e he hzero => (hpre e he c hc).mono fun _ h => h.2 hzero

include hpost in
/-- What comes after the lines uses none. -/
theorem uses_later (hc : c ∈ flagCategories) (offset : Nat) :
    Probe.Uses c (textAt post offset) fun _ => False :=
  uses_textAt fun e he _ => hpost e he c hc

include hmid in
/-- Behind the start of the file there are no lines. -/
theorem textAt_behind (hne : offset ≠ 0) :
    textAt (pre ++ mid ++ post) offset = textAt pre offset ++ textAt post offset := by
  have hno : textAt mid offset = "" :=
    textAt_of_forall_ne fun e he hoffset => hne (hoffset ▸ hmid e he)
  rw [textAt_append, textAt_append, hno, String.append_empty]

include hpre hmid hpost

theorem uses_behind (hc : c ∈ flagCategories) (hne : offset ≠ 0) :
    Probe.Uses c (textAt (pre ++ mid ++ post) offset) (· < numbering.count c) := by
  rw [textAt_behind hmid hne]
  exact (uses_before hpre hc offset).append ((uses_later hpost hc offset).mono fun _ => False.elim)

/-- Behind the start of the file, an array is mentioned where it was before the lines. -/
theorem rests_behind_eq_nil_iff (hc : c ∈ flagCategories) (hne : offset ≠ 0) :
    rests (Probe.flagStem c) (textAt (pre ++ mid ++ post) offset) = [] ↔
      contains (textAt pre offset) (Probe.flagStem c) = false := by
  rw [textAt_behind hmid hne, (uses_before hpre hc offset).separable,
    (uses_later hpost hc offset).rests_eq_nil fun _ => id, List.append_nil, List.map_eq_nil_iff,
    contains_eq_false_iff (needle_ne_nil (flagStem_mem hc))]

/-- **An array is mentioned behind the lines** if it was before them. -/
theorem contains_rest_iff {offsets : List Nat} (hoffsets : ∀ offset, offset ∈ offsets ↔
      offset ≠ 0 ∧ ∃ e ∈ pre ++ mid ++ post, e.offset = offset) (hc : c ∈ flagCategories) :
    contains (textAt post 0 ++ String.join (offsets.map (textAt (pre ++ mid ++ post))))
        (Probe.flagStem c) = true ↔
      ∃ e ∈ pre, contains (textAt pre e.offset) (Probe.flagStem c) = true := by
  have hlater := uses_later hpost hc 0
  have hjoin : ∀ s ∈ offsets.map (textAt (pre ++ mid ++ post)), Separable (Probe.flagStem c) s := by
    refine List.forall_mem_map.mpr fun offset hoffset => ?_
    exact (uses_behind hpre hmid hpost hc ((hoffsets offset).mp hoffset).1).separable
  rw [← not_iff_not]
  simp only [not_exists, not_and, Bool.not_eq_true]
  rw [contains_eq_false_iff (needle_ne_nil (flagStem_mem hc)), hlater.separable,
    hlater.rests_eq_nil fun _ => id, List.map_nil, List.nil_append, rests_join hjoin,
    List.forall_mem_map]
  constructor
  · intro h e he
    by_cases hzero : e.offset = 0
    · rw [hzero]
      exact contains_eq_false hc (uses_start hpre hc)
    · have hmem : e.offset ∈ offsets := (hoffsets e.offset).mpr
        ⟨hzero, e, List.mem_append_left _ (List.mem_append_left _ he), rfl⟩
      exact (rests_behind_eq_nil_iff hpre hmid hpost hc hzero).mp (h e.offset hmem)
  · intro h offset hoffset
    rw [rests_behind_eq_nil_iff hpre hmid hpost hc ((hoffsets offset).mp hoffset).1]
    by_cases hpart : ∃ e ∈ pre, e.offset = offset
    · obtain ⟨e, he, rfl⟩ := hpart
      exact h e he
    · rw [textAt_of_forall_ne fun e he hoffset => hpart ⟨e, he, hoffset⟩]
      exact contains_eq_false hc (Probe.uses_join fun _ hs => absurd hs List.not_mem_nil)

/-- **Lines that arrive at the right time** declare the arrays: what came before uses flags below
the counts, away from the start of the file, and what comes later uses none. -/
theorem exists_declares {set : EditSet} (hset : set.Gathers (pre ++ mid ++ post))
    (hlines : textAt mid 0 = flagHeading isMain numbering used)
    (hused : ∀ c ∈ flagCategories, used c = true ↔
      ∃ e ∈ pre, contains (textAt pre e.offset) (Probe.flagStem c) = true) :
    ∃ before after, Declares set.inserted isMain numbering before after := by
  obtain ⟨offsets, -, hoffsets, hinserted⟩ := hset.exists_inserted_eq
  have hmention : ∀ c ∈ flagCategories, used c =
      contains (textAt post 0 ++ String.join (offsets.map (textAt (pre ++ mid ++ post))))
        (Probe.flagStem c) := fun c hc => by
    rw [Bool.eq_iff_iff, hused c hc, contains_rest_iff hpre hmid hpost hoffsets hc]
  have huses : ∀ c ∈ flagCategories, Probe.Uses c
      (textAt post 0 ++ String.join (offsets.map (textAt (pre ++ mid ++ post))))
        (· < numbering.count c) := by
    intro c hc
    refine ((uses_later hpost hc 0).mono fun _ => False.elim).append (Probe.uses_join ?_)
    refine List.forall_mem_map.mpr fun offset hoffset => ?_
    exact uses_behind hpre hmid hpost hc ((hoffsets offset).mp hoffset).1
  refine ⟨textAt pre 0, textAt post 0 ++ String.join (offsets.map (textAt (pre ++ mid ++ post))),
    ?_, fun c hc => contains_eq_false hc (uses_start hpre hc), fun c hc => rests_flagHeading hc,
    huses⟩
  rw [hinserted, textAt_append, textAt_append, hlines,
    flagHeading_congr (fun _ _ => rfl) hmention]
  simp only [String.append_assoc]

end

end Tracing

end ProbeWeaver
