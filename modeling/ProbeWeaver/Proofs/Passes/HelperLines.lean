import Mathlib.Data.List.Nodup
import ProbeWeaver.Proofs.Passes.HelperStems
import ProbeWeaver.Proofs.Passes.HelperWorks

/-!
# Proofs/Passes/HelperLines — the lines of helpers in a file

The late rule looks for calls in the accepted edits and writes the helpers that it finds
(`Relocation.editsOf_helperRule`).  Each stands there once, behind the header.  If what was inserted
before calls helpers in the works of the pass alone, the lines are those of the helpers that the
works call, no more and no fewer (`Relocation.isSupplied`).
-/

namespace ProbeWeaver

open Text

variable {t : Tree} {u : SourceUnit} {call : String} {lottery : Relocation.Lottery} {e : Edit}
  {pre edits : List Edit} {set : EditSet}

namespace Relocation

/-! ## The lines -/

/-- The header that helpers need, and their definitions. -/
def helpersText (helpers : List (String × String)) : String :=
  header ++ String.join (helpers.map fun helper => helper.2 ++ "\n")

/-- The helpers of a file: all of them where `main` is, elsewhere those that are called. -/
def supplied (isMain : Bool) (isCalled : String → Bool) : List (String × String) :=
  helperMacros.filter fun helper => isMain || isCalled helper.1

/-- **The edits that supply a file with helpers**: these, and where `main` is the flags of what is
freed; nothing at all if there are none. -/
def supplies (isMain : Bool) (freed : Nat) (isCalled : String → Bool) : List Edit :=
  if (supplied isMain isCalled).isEmpty then []
  else [⟨0, 0, helpersText (supplied isMain isCalled) ++
    if isMain then Probe.flagDefinition .free freed else ""⟩]

theorem mem_of_mem_supplied {isMain : Bool} {isCalled : String → Bool} {helper : String × String}
    (h : helper ∈ supplied isMain isCalled) : helper ∈ helperMacros :=
  (List.mem_filter.mp h).1

theorem supplied_eq_nil_iff {isMain : Bool} {isCalled : String → Bool} :
    supplied isMain isCalled = [] ↔
      isMain = false ∧ ∀ call ∈ helperCalls, isCalled call = false := by
  have hforall : (∀ helper ∈ helperMacros, ¬(isMain || isCalled helper.1) = true) ↔
      ∀ call ∈ helperCalls, isMain = false ∧ isCalled call = false := by
    rw [helperCalls, List.forall_mem_map]
    simp
  have hsome : copyCall 1 true ∈ helperCalls := copyCall_mem ⟨Nat.le_refl 1, by decide⟩ true
  rw [supplied, List.filter_eq_nil_iff, hforall]
  exact ⟨fun h => ⟨(h _ hsome).1, fun call hcall => (h call hcall).2⟩,
    fun h call hcall => ⟨h.1, h.2 call hcall⟩⟩

/-- **Nothing is inserted** where no helper is called and `main` is not, and else one text. -/
theorem length_supplies {isMain : Bool} {freed : Nat} {isCalled : String → Bool} :
    (supplies isMain freed isCalled).length =
      if isMain || helperCalls.any isCalled then 1 else 0 := by
  have hnone : supplied isMain isCalled = [] ↔ ¬(isMain || helperCalls.any isCalled) = true := by
    rw [supplied_eq_nil_iff]
    simp
  rw [supplies]
  split
  · next hempty =>
    rw [if_neg (hnone.mp (List.isEmpty_iff.mp hempty))]
    rfl
  · next hempty =>
    rw [if_pos (of_not_not fun h => hempty (List.isEmpty_iff.mpr (hnone.mpr h)))]
    rfl

theorem offset_of_mem_supplies {isMain : Bool} {freed : Nat} {isCalled : String → Bool}
    (h : e ∈ supplies isMain freed isCalled) : e.offset = 0 := by
  rw [supplies] at h
  split at h
  · exact absurd h List.not_mem_nil
  · rw [List.mem_singleton.mp h]

theorem supplies_congr {isMain : Bool} {freed : Nat} {isCalled isCalled' : String → Bool}
    (h : ∀ call ∈ helperCalls, isCalled call = isCalled' call) :
    supplies isMain freed isCalled = supplies isMain freed isCalled' := by
  have hfilter : supplied isMain isCalled = supplied isMain isCalled' :=
    List.filter_congr fun helper hhelper => by rw [h _ (List.mem_map_of_mem hhelper)]
  rw [supplies, supplies, hfilter]

/-- **What the rule of helpers makes**: it supplies the file with those that the accepted edits
call. -/
theorem editsOf_helperRule (cx : EditContext) (m : Match) (numbering : Numbering) :
    (helperRule.editsOf cx m).run numbering = .ok (supplies cx.unit.holdsMain
      (numbering.count .free) cx.accepted.insertsAnywhere, numbering) := by
  have hrun : (helperLines cx m).run numbering = .ok (
      if (supplied cx.unit.holdsMain cx.accepted.insertsAnywhere).isEmpty then none
      else some (helpersText (supplied cx.unit.holdsMain cx.accepted.insertsAnywhere) ++
        if cx.unit.holdsMain then Probe.flagDefinition .free (numbering.count .free) else ""),
      numbering) := by
    rw [helperLines]
    show (if _ then _ else _ : Eval (Option String)).run numbering = _
    cases cx.unit.holdsMain with
    | true => rfl
    | false =>
      simp only [Bool.false_eq_true, if_false, String.append_empty]
      show (if List.isEmpty (supplied false _) then _ else _ : Eval (Option String)).run _ = _
      split <;> rfl
  rw [Rule.editsOf_of_heading rfl hrun, supplies]
  split <;> rfl

section

variable {needle : String} (hneedle : "#".toList <+: needle.toList)
include hneedle

/-- What stands between the lines of helpers holds no needle that starts as they do. -/
theorem quiet_lineEnd (freed : Nat) :
    Quiet needle "\n" ∧ Quiet needle (Probe.flagDefinition .free freed) := by
  have hpiece {s : String} (hs : s ∈ ["\n", "/*I::*/ int ", Probe.flagStem .free, "];\n"]) :
      Quiet needle s := by
    have hall : ∀ s ∈ ["\n", "/*I::*/ int ", Probe.flagStem .free, "];\n"],
        clashes (bytes "#") [] (bytes s) = true := by
      decide +kernel
    exact (quiet_of_clashes (hall s hs)).of_longer hneedle
  have hnumber : Quiet "#" (toString freed) := quiet_toString rfl (by decide) freed
  refine ⟨hpiece (by decide), ?_⟩
  rw [flagDefinition_eq]
  exact (hpiece (by decide)).append ((hpiece (by decide)).append
    ((hnumber.of_longer hneedle).append (hpiece (by decide))))

/-- A needle that only definitions of helpers could hold. -/
theorem quiet_helpers (hstems : ∀ call ∈ helperCalls, Quiet needle (defineStem call))
    {helpers : List (String × String)} (known : ∀ helper ∈ helpers, helper ∈ helperMacros) :
    Quiet needle (String.join (helpers.map fun helper => helper.2 ++ "\n")) :=
  quiet_join fun s hs => by
    obtain ⟨helper, hhelper, rfl⟩ := List.mem_map.mp hs
    obtain ⟨body, hbody, hquiet⟩ := exists_define_eq helper (known helper hhelper)
    rw [hbody]
    exact ((hstems _ (List.mem_map_of_mem (known helper hhelper))).append
      (hquiet.of_longer hneedle)).append (quiet_lineEnd hneedle 0).1

end

/-- The start of a definition starts as one. -/
theorem hash_prefix_defineStem (call : String) : "#".toList <+: (defineStem call).toList := by
  have hstem : defineStem call = "#" ++ ("define " ++ String.ofList call.toList.tail) := rfl
  rw [hstem]
  exact toList_prefix_append _ _

/-- No inserted text goes on with the definition of a helper. -/
theorem fresh_defineStem {text : String} (hcall : call ∈ helperCalls)
    (h : StartsAmong openings text) : Fresh (defineStem call) text := by
  have hall : ∀ call ∈ helperCalls,
      (defineStem call).toList.tail.head?.any openings.contains = false := by
    decide
  exact h.fresh (hall call hcall)

/-- **Each helper among the lines** is defined once for each time that it is there. -/
theorem followed_helpers (hcall : call ∈ helperCalls) {helpers : List (String × String)}
    (known : ∀ helper ∈ helpers, helper ∈ helperMacros) :
    Followed (defineStem call) (String.join (helpers.map fun helper => helper.2 ++ "\n"))
      (helpers.flatMap fun helper => if helper.1 = call then [""] else []) := by
  have hhash := hash_prefix_defineStem call
  have hne : (defineStem call).toList ≠ [] := List.IsPrefix.ne_nil hhash (List.cons_ne_nil _ _)
  refine followed_join fun helper hhelper =>
    ⟨?_, fresh_defineStem hcall (startsAmong_helperLine (known helper hhelper))⟩
  obtain ⟨body, hbody, hquiet⟩ := exists_define_eq helper (known helper hhelper)
  have hrest : Quiet (defineStem call) (body ++ "\n") :=
    (hquiet.of_longer hhash).append (quiet_lineEnd hhash 0).1
  rw [hbody, String.append_assoc]
  split
  · next heq =>
    rw [heq]
    exact (followed_of_quiet hrest).needle_append hne List.nil_prefix
  · next hother =>
    have hall : ∀ call ∈ helperCalls, ∀ other ∈ helperCalls, other ≠ call →
        clashes (bytes (defineStem call)) [] (bytes (defineStem other)) = true := by
      decide +kernel
    have hmem : helper.1 ∈ helperCalls := List.mem_map_of_mem (known helper hhelper)
    have hstem := quiet_of_clashes (hall call hcall helper.1 hmem hother)
    exact followed_of_quiet (hstem.append hrest)

theorem length_flatMap_named (call : String) : ∀ helpers : List (String × String),
    (helpers.flatMap fun helper => if helper.1 = call then [""] else []).length =
      (helpers.map (·.1)).count call
  | [] => rfl
  | helper :: helpers => by
      rw [List.flatMap_cons, List.length_append, length_flatMap_named call helpers, List.map_cons,
        List.count_cons, Nat.add_comm]
      by_cases h : helper.1 = call <;> simp [h]

/-- Each helper is among those of the file at most once. -/
theorem count_supplied (hcall : call ∈ helperCalls) (isMain : Bool) (isCalled : String → Bool) :
    ((supplied isMain isCalled).map (·.1)).count call = if isMain || isCalled call then 1 else 0 := by
  have hnodup : helperCalls.Nodup := by decide
  have hmap : (supplied isMain isCalled).map (·.1) =
      helperCalls.filter fun call => isMain || isCalled call := by
    rw [supplied, helperCalls, List.filter_map]
    rfl
  rw [hmap]
  split
  · next h =>
    rw [List.count_filter (p := fun call => isMain || isCalled call) h]
    exact List.count_eq_one_of_mem hnodup hcall
  · next h =>
    exact List.count_eq_zero.mpr fun hmem => h (List.mem_filter.mp hmem).2

/-- The flags of what is freed hold no needle of the other lines. -/
theorem quiet_freedFlags {needle : String} (hneedle : "#".toList <+: needle.toList) (isMain : Bool)
    (freed : Nat) : Quiet needle (if isMain then Probe.flagDefinition .free freed else "") := by
  cases isMain with
  | true => exact (quiet_lineEnd hneedle freed).2
  | false => exact ⟨fun _ => True.intro⟩

/-- **The lines define their helpers**, and nothing of them goes on with a definition. -/
theorem followed_defines (hcall : call ∈ helperCalls) (isMain : Bool) (freed : Nat)
    (isCalled : String → Bool) :
    Followed (defineStem call) (textAt (supplies isMain freed isCalled) 0)
      ((supplied isMain isCalled).flatMap fun helper => if helper.1 = call then [""] else []) := by
  rw [supplies]
  split
  · next hempty =>
    rw [List.isEmpty_iff.mp hempty]
    exact followed_of_quiet ⟨fun _ => True.intro⟩
  · have hall : ∀ call ∈ helperCalls,
        clashes (bytes (defineStem call)) [] (bytes header) = true := by
      decide +kernel
    have hfresh : Fresh (defineStem call)
        (if isMain then Probe.flagDefinition .free freed else "") := by
      cases isMain with
      | true => exact fresh_defineStem hcall (startsAmong_flagLine true (.free, freed))
      | false => exact fresh_empty _
    have hflags := followed_of_quiet (quiet_freedFlags (hash_prefix_defineStem call) isMain freed)
    have known : ∀ helper ∈ supplied isMain isCalled, helper ∈ helperMacros :=
      fun _ => mem_of_mem_supplied
    have hlines := ((followed_helpers hcall known).append hflags hfresh).quiet_append
      (quiet_of_clashes (hall call hcall))
    rw [List.append_nil, ← String.append_assoc] at hlines
    exact (textAt_singleton ⟨0, 0, _⟩).symm ▸ hlines

/-- **The lines start with the header.** -/
theorem followed_header (isMain : Bool) (freed : Nat) (isCalled : String → Bool) :
    Followed "#include<stdlib.h>" (textAt (supplies isMain freed isCalled) 0)
      ((supplies isMain freed isCalled).map fun _ => "") := by
  have hhash : "#".toList <+: "#include<stdlib.h>".toList := by decide
  have hall : ∀ call ∈ helperCalls,
      clashes (bytes "#include<stdlib.h>") [] (bytes (defineStem call)) = true := by
    decide +kernel
  have known : ∀ helper ∈ supplied isMain isCalled, helper ∈ helperMacros :=
    fun _ => mem_of_mem_supplied
  have hhelpers := quiet_helpers hhash (fun call hcall => quiet_of_clashes (hall call hcall)) known
  have hheader : header = "#include<stdlib.h>" ++ "\n" := by decide
  have hbehind := ((quiet_lineEnd hhash 0).1.append hhelpers).append
    (quiet_freedFlags hhash isMain freed)
  rw [supplies]
  split
  · exact followed_of_quiet ⟨fun _ => True.intro⟩
  · have hlines : Followed "#include<stdlib.h>" ("#include<stdlib.h>" ++ _) [""] :=
      (followed_of_quiet hbehind).needle_append (by decide) List.nil_prefix
    rw [← String.append_assoc, ← String.append_assoc, ← hheader] at hlines
    exact (textAt_singleton ⟨0, 0, _⟩).symm ▸ hlines

/-! ## A file with its helpers -/

/-- The works call the helper. -/
def isCalled (works : List Work) (call : String) : Bool :=
  (works.flatMap Work.calls).any (·.1 == call)

/-- **A file is supplied with helpers**: the works call helpers of the rank of their arrays and no
other edit calls any, whatever stands together; nothing is called in front of the lines; and the
lines are the header, once, and each helper that is called, once, with all helpers where `main` is. -/
structure IsSupplied (u : SourceUnit) (works : List Work) (freed : Nat)
    (pre lines post : List Edit) : Prop where
  serves : ∀ made ∈ works.flatMap Work.calls, Serves made
  calls : ∀ call ∈ helperCalls, List.Forall₂ (fun rest tail => tail.toList <+: rest)
    ((works.flatMap (Work.edits u)).flatMap fun e => rests call e.text)
    (tailsOf u call (works.flatMap Work.calls))
  merged : ∀ call ∈ helperCalls, ∀ offset,
    (rests call (textAt (pre ++ (works.flatMap (Work.edits u) ++ (lines ++ post))) offset)).length =
      (((works.flatMap (Work.edits u)).filter (·.offset == offset)).flatMap fun e =>
        rests call e.text).length
  front : ∀ call ∈ helperCalls,
    contains (textAt (pre ++ works.flatMap (Work.edits u)) 0) call = false
  lines_eq : lines = supplies u.holdsMain freed (isCalled works)
  includes : (rests "#include<stdlib.h>" (textAt lines 0)).length =
    if u.holdsMain || helperCalls.any (isCalled works) then 1 else 0
  defines : ∀ call ∈ helperCalls, (rests (defineStem call) (textAt lines 0)).length =
    if u.holdsMain || isCalled works call then 1 else 0
  nothing : u.holdsMain = false → (∀ call ∈ helperCalls, isCalled works call = false) → lines = []
  once : ∀ stem ∈ lineStems, u.Spares stem → ∀ offset,
    (rests stem (textAt (pre ++ (works.flatMap (Work.edits u) ++ (lines ++ post))) offset)).length =
      (rests stem (textAt lines offset)).length

theorem tailsOf_ne_nil_iff {works : List Work} :
    tailsOf u call (works.flatMap Work.calls) ≠ [] ↔ isCalled works call = true := by
  rw [ne_eq, tailsOf, List.flatMap_eq_nil_iff, isCalled, List.any_eq_true]
  simp

/-- **A text without helpers**: it calls none, and holds none of their lines. -/
structure IsHelperless (u : SourceUnit) (text : String) : Prop where
  starts : StartsAmong openings text
  calls : ∀ call ∈ helperCalls, Followed call text []
  lines : ∀ stem ∈ lineStems, u.Spares stem → Quiet stem text

/-- Edits without helpers have no tails. -/
theorem followedIn_of_forall (hcall : call ∈ helperCalls)
    (h : ∀ e ∈ edits, StartsAmong openings e.text ∧ Followed call e.text []) :
    FollowedIn call edits [] where
  starts := by
    rw [List.flatMap_eq_nil_iff.mpr fun e he => List.forall₂_nil_right_iff.mp (h e he).2.starts]
    exact .nil
  apart := fun e he => ⟨fresh_of_startsAmong hcall (h e he).1, [], (h e he).2⟩

theorem FollowedIn.flatMap_filter_eq_nil (h : FollowedIn call edits []) (p : Edit → Bool) :
    ((edits.filter p).flatMap fun e => rests call e.text) = [] :=
  List.flatMap_eq_nil_iff.mpr fun e he =>
    List.flatMap_eq_nil_iff.mp (List.forall₂_nil_right_iff.mp h.starts) e (List.mem_filter.mp he).1

/-- The lines call nothing. -/
theorem followedIn_supplies (hcall : call ∈ helperCalls) (isMain : Bool) (freed : Nat)
    (isCalled : String → Bool) : FollowedIn call (supplies isMain freed isCalled) [] := by
  refine followedIn_of_forall hcall fun e he => ?_
  rw [supplies] at he
  split at he
  · exact absurd he List.not_mem_nil
  · obtain rfl := List.mem_singleton.mp he
    have hform : Heading helperRule.name (helpersText (supplied isMain isCalled) ++
        (((if isMain then some freed else none).map (Probe.flagDefinition .free)).getD "")) :=
      .helpers _ fun _ => mem_of_mem_supplied
    have hflags : ((if isMain then some freed else none).map (Probe.flagDefinition .free)).getD "" =
        if isMain then Probe.flagDefinition .free freed else "" := by
      cases isMain <;> rfl
    rw [hflags] at hform
    exact ⟨hform.startsAmong, hform.followed hcall⟩

section

variable {works : List Work} {post : List Edit}
  (hothers : ∀ e ∈ pre ++ post, IsHelperless u e.text)
include hothers

/-- The edits around the work and the lines call nothing. -/
theorem followedIn_around (hcall : call ∈ helperCalls) :
    FollowedIn call pre [] ∧ FollowedIn call post [] :=
  ⟨followedIn_of_forall hcall fun e he => have h := hothers e (List.mem_append_left _ he)
      ⟨h.starts, h.calls call hcall⟩,
    followedIn_of_forall hcall fun e he => have h := hothers e (List.mem_append_right _ he)
      ⟨h.starts, h.calls call hcall⟩⟩

/-- **The lines of helpers stand among the lines alone**, whatever stands around these. -/
theorem length_rests_stem {stem : String} (hu : u.root = .root t)
    (hdue : ∀ w ∈ works, w.IsDue lottery u) (hstem : stem ∈ lineStems) (hspares : u.Spares stem)
    (isMain : Bool) (freed : Nat) (isCalled : String → Bool) (offset : Nat) :
    (rests stem (textAt (pre ++ (works.flatMap (Work.edits u) ++
        (supplies isMain freed isCalled ++ post))) offset)).length =
      (rests stem (textAt (supplies isMain freed isCalled) offset)).length := by
  have hquiet {edits : List Edit} (h : ∀ e ∈ edits, Quiet stem e.text) :
      Quiet stem (textAt edits offset) := quiet_join fun s hs => by
    obtain ⟨e, he, rfl⟩ := List.mem_map.mp hs
    exact h e (List.mem_filter.mp he).1
  have hpre : Quiet stem (textAt pre offset) := hquiet fun e he =>
    (hothers e (List.mem_append_left _ he)).lines stem hstem hspares
  have hpost : Quiet stem (textAt post offset) := hquiet fun e he =>
    (hothers e (List.mem_append_right _ he)).lines stem hstem hspares
  have hworks : Quiet stem (textAt (works.flatMap (Work.edits u)) offset) := hquiet fun e he => by
    obtain ⟨w, hw, he⟩ := List.mem_flatMap.mp he
    obtain ⟨draws, hform⟩ := (hdue w hw).exists_inserted hu he
    exact hform.quiet_stem hstem hspares
  have hlines : ∃ tails, Followed stem (textAt (supplies isMain freed isCalled) offset) tails := by
    by_cases hzero : offset = 0
    · subst hzero
      rcases List.mem_cons.mp hstem with rfl | hmem
      · exact ⟨_, followed_header isMain freed isCalled⟩
      · obtain ⟨call, hcall, rfl⟩ := List.mem_map.mp hmem
        exact ⟨_, followed_defines hcall isMain freed isCalled⟩
    · have hnothing : textAt (supplies isMain freed isCalled) offset = "" :=
        textAt_of_forall_ne fun e he heq => hzero (heq ▸ offset_of_mem_supplies he)
      exact hnothing ▸ ⟨[], followed_of_quiet ⟨fun _ => True.intro⟩⟩
  obtain ⟨tails, hlines⟩ := hlines
  have hseconds : ∀ stem ∈ lineStems, stem.toList.tail.head?.any openings.contains = false := by
    decide
  have hfresh : Fresh stem (textAt post offset) := by
    refine StartsAmong.fresh (startsAmong_join fun s hs => ?_) (hseconds stem hstem)
    obtain ⟨e, he, rfl⟩ := List.mem_map.mp hs
    exact (hothers e (List.mem_append_right _ (List.mem_filter.mp he).1)).starts
  rw [textAt_append, textAt_append, textAt_append, hpre.rests_append, hworks.rests_append,
    hlines.severs _ hfresh, hpost.rests_eq_nil, List.append_nil, List.length_map]

end

/-- **Works that are due are supplied** with helpers by the lines that the rule of helpers makes, as
long as no other edit is about any. -/
theorem isSupplied {works : List Work} {post : List Edit} (hu : u.root = .root t)
    (huncalled : u.IsUncalled) (hdecls : ∀ n ∈ u.root.walk, n.kind = .declaration → n.stop ≠ 0)
    (hdue : ∀ w ∈ works, w.IsDue lottery u)
    (hothers : ∀ e ∈ pre ++ post, IsHelperless u e.text)
    (hset : set.Gathers (pre ++ works.flatMap (Work.edits u))) (freed : Nat) :
    IsSupplied u works freed pre (supplies u.holdsMain freed set.insertsAnywhere) post := by
  have hworks : ∀ call ∈ helperCalls, FollowedIn call (works.flatMap (Work.edits u))
      (tailsOf u call (works.flatMap Work.calls)) := fun call hcall => by
    rw [tailsOf, List.flatMap_assoc]
    exact followedIn_flatMap fun w hw => (hdue w hw).followedIn hu huncalled hcall
  have hfront : ∀ call ∈ helperCalls, FollowedIn call (pre ++ works.flatMap (Work.edits u))
      (tailsOf u call (works.flatMap Work.calls)) := fun call hcall =>
    (followedIn_around hothers hcall).1.append (hworks call hcall)
  have hsupplies : supplies u.holdsMain freed set.insertsAnywhere =
      supplies u.holdsMain freed (isCalled works) := supplies_congr fun call hcall => by
    rw [Bool.eq_iff_iff, (hfront call hcall).insertsAnywhere_iff hset hcall, tailsOf_ne_nil_iff]
  rw [hsupplies]
  refine ⟨fun made hmade => ?_, fun call hcall => (hworks call hcall).starts, fun call hcall o => ?_,
    fun call hcall => ?_, rfl, ?_, fun call hcall => ?_, fun hmain hnone => ?_,
    fun stem hstem hspares o => length_rests_stem hothers hu hdue hstem hspares _ _ _ o⟩
  · obtain ⟨w, hw, hmade⟩ := List.mem_flatMap.mp hmade
    exact (hdue w hw).serves hu made hmade
  · obtain ⟨hpre, hpost⟩ := followedIn_around hothers hcall
    have hlines := followedIn_supplies hcall u.holdsMain freed (isCalled works)
    rw [(hpre.append ((hworks call hcall).append (hlines.append hpost))).length_rests_textAt]
    simp only [List.filter_append, List.flatMap_append, hpre.flatMap_filter_eq_nil,
      hlines.flatMap_filter_eq_nil, hpost.flatMap_filter_eq_nil, List.nil_append, List.append_nil]
  · rw [← Bool.not_eq_true, (hfront call hcall).contains_textAt_iff hcall]
    rintro ⟨e, he, hstart, hcontains⟩
    rcases List.mem_append.mp he with he | he
    · have hnone := (hothers e (List.mem_append_left _ he)).calls call hcall
      rw [(contains_eq_false_iff (call_ne_nil hcall)).mpr
        (List.forall₂_nil_right_iff.mp hnone.starts)] at hcontains
      exact Bool.false_ne_true hcontains
    · obtain ⟨w, hw, he⟩ := List.mem_flatMap.mp he
      rw [(hdue w hw).contains_start hu hcall hdecls he hstart] at hcontains
      exact Bool.false_ne_true hcontains
  · rw [(followed_header _ _ _).starts.length_eq, List.length_map, length_supplies]
  · rw [(followed_defines hcall _ _ _).starts.length_eq, length_flatMap_named, count_supplied hcall]
  · rw [supplies, supplied_eq_nil_iff.mpr ⟨hmain, hnone⟩]
    rfl

end Relocation

end ProbeWeaver
