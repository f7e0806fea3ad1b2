import ProbeWeaver.Proofs.Passes.Arrays
import ProbeWeaver.Proofs.Passes.Draws
import ProbeWeaver.Proofs.Passes.Quiet

/-!
# Proofs/Passes/HelperCalls — where inserted text calls helpers

A heap copy calls a helper for the rank of its array, and so does each call that frees one; the nine
spellings start with a line break and none is part of another.  No other text that rules insert calls
a helper (`Inserted.followed`, `Heading.followed`), as long as the file's quotes spell no call.
-/

namespace ProbeWeaver

open Text

variable {t : Tree} {u : SourceUnit} {r : Rule} {exprs : List Node} {draws : List Draw}
  {text call other s f q lead name ruleName : String} {fields : List String} {type : CType}

/-! ## The calls -/

namespace Relocation

/-- **The calls of helpers**, up to their arguments. -/
def helperCalls : List String := helperMacros.map (·.1)

/-- The call of a helper that copies an array. -/
def copyCall (rank : Nat) (isInitialized : Bool) : String :=
  "\ninit_arr_" ++ (toString rank ++ ((if isInitialized then "" else "_uninit") ++ "("))

/-- The call of a helper that frees an array. -/
def releaseCall (rank : Nat) : String := "\nfree_" ++ (toString rank ++ "(")

/-- What stands behind the parenthesis of a call: the array and its shadow. -/
def arguments (name : String) : String := name ++ (", MUT_" ++ name)

/-- The arguments of a call, in front of what closes them, hold no needle that the name does not. -/
theorem quiet_arguments {needle : String} (hshadow : Closes needle ", MUT_")
    (hname : contains name needle = false) (hf : Closes needle f) :
    Quiet needle (arguments name ++ f) := by
  have hparts := (hshadow.quiet_append hname).append (hf.quiet_append hname)
  simp only [String.append_assoc] at hparts
  rw [arguments, String.append_assoc, String.append_assoc]
  exact hparts

/-- **The ranks that the helpers serve.** -/
def IsServed (rank : Nat) : Prop := 1 ≤ rank ∧ rank ≤ mostDimensions

theorem IsServed.cases {rank : Nat} (h : IsServed rank) : rank = 1 ∨ rank = 2 ∨ rank = 3 := by
  obtain ⟨hpos, hle⟩ := h
  rw [mostDimensions] at hle
  omega

theorem copyCall_mem {rank : Nat} (h : IsServed rank) (isInitialized : Bool) :
    copyCall rank isInitialized ∈ helperCalls := by
  rcases h.cases with rfl | rfl | rfl <;> cases isInitialized <;> decide

theorem releaseCall_mem {rank : Nat} (h : IsServed rank) : releaseCall rank ∈ helperCalls := by
  rcases h.cases with rfl | rfl | rfl <;> decide

/-- The start of the definition of a helper, up to its parameters. -/
def defineStem (call : String) : String := "#define " ++ String.ofList call.toList.tail

/-- **A helper is its definition**, and defines nothing else. -/
theorem exists_define_eq : ∀ helper ∈ helperMacros, ∃ body,
    helper.2 = defineStem helper.1 ++ body ∧ Quiet "#" body := by
  have hcopy {call first rest : String} (hfirst : first = defineStem call ++ "arr1, arr2, arr_type) ")
      (hrest : clashes (bytes "#") [] (bytes rest) = true) :
      ∃ body, first ++ rest = defineStem call ++ body ∧ Quiet "#" body := by
    refine ⟨"arr1, arr2, arr_type) " ++ rest, by rw [hfirst, String.append_assoc], ?_⟩
    exact (quiet_of_clashes (by decide +kernel)).append (quiet_of_clashes hrest)
  have hfree {call first rest : String} (hfirst : first = defineStem call ++ "arr, arr2) ")
      (hrest : clashes (bytes "#") [] (bytes rest) = true) :
      ∃ body, first ++ rest = defineStem call ++ body ∧ Quiet "#" body := by
    refine ⟨"arr, arr2) " ++ rest, by rw [hfirst, String.append_assoc], ?_⟩
    exact (quiet_of_clashes (by decide +kernel)).append (quiet_of_clashes hrest)
  unfold helperMacros initArray1 initArray2 initArray3 initArray1Uninit initArray2Uninit
    initArray3Uninit free1 free2 free3
  simp only [List.forall_mem_cons, String.append_assoc, List.not_mem_nil, false_implies,
    implies_true, and_true]
  refine ⟨hcopy ?_ ?_, hcopy ?_ ?_, hcopy ?_ ?_, hcopy ?_ ?_, hcopy ?_ ?_, hcopy ?_ ?_, hfree ?_ ?_,
    hfree ?_ ?_, hfree ?_ ?_⟩
  all_goals decide +kernel

theorem startsAmong_helperLine {helper : String × String} (h : helper ∈ helperMacros) :
    StartsAmong openings (helper.2 ++ "\n") := by
  obtain ⟨body, hbody, -⟩ := exists_define_eq helper h
  rw [hbody, defineStem, String.append_assoc, String.append_assoc]
  exact startsAmong_of_start (by decide) (by decide)

/-- **A heap copy is a marker and a call.** -/
theorem heapCopy_eq_call (id : Nat) (name : String) (type : CType) (isInitialized : Bool) :
    heapCopy id name type isInitialized = "\n" ++ (markerStart ++
      (markerBody id "VARDECLHEAP" [elementSpelling type, name, toString type.arrayRank] ++
        ("*/" ++ (copyCall type.arrayRank isInitialized ++ (arguments name ++
          (", " ++ (type.innermost.unqualified.render ++ ")"))))))) := by
  rw [heapCopy_eq, heapTail, copyCall, arguments]
  simp only [String.append_assoc]
  rfl

/-- **A call that frees is a marker and a call.** -/
theorem freeCall_eq_call (id : Nat) (name : String) (type : CType) :
    freeCall id name type = markerStart ++
      (markerBody id "VARREF_FREE" [elementSpelling type, name] ++
        ("*/" ++ (releaseCall type.arrayRank ++ (arguments name ++ (");" ++ "\n"))))) := by
  rw [freeCall_eq, freeTail, releaseCall, arguments]
  simp only [String.append_assoc]
  rfl

end Relocation

open Relocation

/-- **The file's quotes spell no call of a helper.** -/
def SourceUnit.IsUncalled (u : SourceUnit) : Prop :=
  ∀ q ∈ u.quotes, ∀ call ∈ helperCalls, contains q call = false

instance (u : SourceUnit) : Decidable u.IsUncalled :=
  inferInstanceAs (Decidable (∀ q ∈ u.quotes, ∀ call ∈ helperCalls, _))

/-- How calls start. -/
def callStarts : List String := ["\ninit_arr_", "\nfree_"]

/-! ## Pieces without calls -/

/-- The fixed pieces in which no call starts. -/
def callPieces : List String :=
  ["*/", "]++;\x7d", "];", " ", "+1", "\n#define ", "\n" ++ markerStart, markerStart, "MUT_",
    "/*I::*/ int ", "/*I::*/ extern int ", "#define ", "#include<stdlib.h>", Hooks.opener, "\x7b",
    "\n\x7d", "\n/*I:ID:BRACEEND:*/"] ++ probePieces ++ Hooks.all.map Hooks.closerStem ++
    Hooks.all.map (·.tag) ++ Category.all.map Probe.flagStem

/-- What may follow a quote. -/
def callClosers : List String := [",", ");", ":", ")", ")+1", " MUT_", ", MUT_", ", "]

section

variable (hcall : call ∈ helperCalls)
include hcall

/-- A call is a line break, and more on the next line. -/
theorem exists_call_eq : ∃ c rest, call.toList = '\n' :: c :: rest ∧ '\n' ∉ c :: rest := by
  have hall : ∀ call ∈ helperCalls, call.toList.head? = some '\n' ∧ call.toList.tail ≠ [] ∧
      '\n' ∉ call.toList.tail := by
    decide
  obtain ⟨hhead, htail, hbreak⟩ := hall call hcall
  obtain ⟨rest, hrest⟩ := List.head?_eq_some_iff.mp hhead
  rw [hrest, List.tail_cons] at htail hbreak
  obtain ⟨c, rest, rfl⟩ := List.exists_cons_of_ne_nil htail
  exact ⟨c, rest, hrest, hbreak⟩

theorem call_ne_nil : call.toList ≠ [] := by
  obtain ⟨c, rest, hcs, -⟩ := exists_call_eq hcall
  rw [hcs]
  exact List.cons_ne_nil _ _

theorem exists_callStart : ∃ start ∈ callStarts, start.toList <+: call.toList := by
  have hall : ∀ call ∈ helperCalls, ∃ start ∈ callStarts, start.toList <+: call.toList := by
    decide
  exact hall call hcall

theorem quiet_callPiece (hs : s ∈ callPieces) : Quiet call s := by
  have hall : ∀ s ∈ callPieces, ∀ start ∈ callStarts,
      clashes (bytes start) [] (bytes s) = true := by
    decide +kernel
  obtain ⟨start, hstart, hprefix⟩ := exists_callStart hcall
  exact (quiet_of_clashes (hall s hs start hstart)).of_longer hprefix

/-- The definition of a helper is one line. -/
theorem quiet_helperText {helper : String × String} (h : helper ∈ helperMacros) :
    Quiet call helper.2 := by
  have hall : ∀ helper ∈ helperMacros, clashes (bytes "\n") [] (bytes helper.2) = true := by
    decide +kernel
  obtain ⟨c, rest, hcs, -⟩ := exists_call_eq hcall
  have hbreak : "\n".toList <+: call.toList := by
    rw [hcs]
    exact ⟨c :: rest, rfl⟩
  exact (quiet_of_clashes (hall helper h)).of_longer hbreak

theorem closes_call (hf : f ∈ callClosers) : Closes call f := by
  have hall : ∀ call ∈ helperCalls, ∀ f ∈ callClosers,
      cutsOff call.toList f.toList = true ∧ clashes (bytes call) [] (bytes f) = true := by
    decide +kernel
  obtain ⟨hcuts, hclashes⟩ := hall call hcall f hf
  exact ⟨hcuts, quiet_of_clashes hclashes⟩

/-- **Calls can be told from probes.** -/
theorem setApart_call : Text.SetApart call where
  start := by
    have hall : ∀ call ∈ helperCalls, call.toList.head?.any (!·.isDigit) = true := by decide
    exact hall call hcall
  pieces := fun s hs => quiet_callPiece hcall <| by
    simp only [callPieces, List.mem_append]
    tauto
  closes := fun f hf => by
    have hall : ∀ f ∈ [",", ");"], f ∈ callClosers := by decide
    exact closes_call hcall (hall f hf)
  paren := fun h => (closes_call hcall (by decide)).append h.quiet
  past := fun h => (closes_call hcall (by decide)).append h.quiet

omit hcall in
/-- Where no line of a quote starts as calls do, none is spelled. -/
theorem SourceUnit.isUncalled_of_starts
    (h : ∀ q ∈ u.quotes, ∀ start ∈ callStarts, contains q start = false) : u.IsUncalled := by
  intro q hq call hcall
  obtain ⟨start, hstart, hprefix⟩ := exists_callStart hcall
  have hnone := h q hq start hstart
  rw [contains, Bool.eq_false_iff] at hnone ⊢
  exact fun hinfix => hnone (hasInfix_of_longer hprefix.isInfix hinfix)

/-- Without calls in them, quotes spare calls. -/
theorem SourceUnit.IsUncalled.spares (hu : u.IsUncalled) : u.Spares call := by
  intro q hq
  have happart := hu q hq call hcall
  have hcolon : Closes call ":" := closes_call hcall (by decide)
  have hshadow : Closes call " MUT_" := closes_call hcall (by decide)
  have hdefine : Quiet call "\n#define " := quiet_callPiece hcall (by decide)
  exact ⟨happart, hcolon.quiet_append happart, hdefine.append (hshadow.quiet_append happart)⟩

/-- A quote that ends its line. -/
theorem followed_quote_line (hq : contains q call = false) : Followed call (q ++ "\n") [] := by
  obtain ⟨c, rest, hcs, hbreak⟩ := exists_call_eq hcall
  exact followed_append_start hcs hbreak hq

/-- **A line without calls.** -/
theorem followed_line (hs : Quiet call s) : Followed call (s ++ "\n") [] :=
  followed_quote_line hcall ((contains_eq_false_iff (call_ne_nil hcall)).mpr hs.rests_eq_nil)

/-- No inserted text goes on with a call. -/
theorem fresh_of_startsAmong (h : StartsAmong openings text) : Fresh call text := by
  have hall : ∀ call ∈ helperCalls, call.toList.tail.head?.any openings.contains = false := by
    decide
  exact h.fresh (hall call hcall)

/-- **A marker calls nothing**, up to its end. -/
theorem quiet_call_marker {kind : String} (id : Nat) (hlead : lead ∈ ["", "\n"])
    (hkind : kind ∈ allKinds) (hfields : ∀ f ∈ fields, Quiet call (f ++ ":")) (hs : Quiet call s) :
    Quiet call (lead ++ (markerStart ++ (markerBody id kind fields ++ s))) := by
  have hall : ∀ lead ∈ ["", "\n"], lead ++ markerStart ∈ callPieces := by decide
  exact (setApart_call hcall).quiet_marker id (quiet_callPiece hcall (hall lead hlead)) hkind
    hfields hs

/-! ## Texts without calls -/

theorem followed_fixed (known : text ∈ fixedTexts) : Followed call text [] := by
  have hall : ∀ text ∈ fixedTexts, text ∈ callPieces ∨ ∃ s ∈ callPieces, text = s ++ "\n" := by
    decide
  rcases hall text known with hs | ⟨s, hs, rfl⟩
  · exact followed_of_quiet (quiet_callPiece hcall hs)
  · exact followed_line hcall (quiet_callPiece hcall hs)

/-- **A probe calls no helper.** -/
theorem followed_probed {c : Category} {kind before behind : String} {args : List String} (id : Nat)
    (hu : u.Spares call) (hlead : lead ∈ ["", "\n"]) (hkind : kind ∈ allKinds)
    (hfields : ∀ f ∈ fields, f ∈ u.quotes) (hformat : (before, behind) ∈ probeFormats)
    (hexprs : ∀ e ∈ exprs, e ∈ u.root.walk) (hargs : ∀ arg ∈ args, Argument u exprs arg) :
    Followed call (lead ++ Observation.markedProbe c id kind fields
      (before ++ toString id ++ behind) args) [] := by
  have hflag : Quiet call (Probe.flagStem c) := quiet_callPiece hcall <| by
    have hall : ∀ c ∈ Category.all, Probe.flagStem c ∈ callPieces := by decide
    exact hall c (by cases c <;> decide)
  have hclose : Quiet call "]++;\x7d" := quiet_callPiece hcall (by decide)
  have hline := followed_line hcall <| quiet_call_marker hcall id hlead hkind
    (fun f hf => (hu f (hfields f hf)).field)
    ((setApart_call hcall).quiet_probe id hflag hclose hu hexprs hargs hformat)
  simp only [String.append_assoc] at hline
  rw [probed_eq]
  exact hline

/-- **Forwarding a name calls no helper.** -/
theorem followed_forwarding (hu : u.Spares call) (hname : name ∈ u.quotes) :
    Followed call (forwarding name) [] := by
  have hline := (followed_quote_line hcall (hu name hname).apart).quiet_append (hu name hname).defined
  simp only [String.append_assoc] at hline
  rw [forwarding_eq]
  exact hline

/-- **Text that moves and frees nothing** calls no helper. -/
theorem Inserted.followed (h : Inserted u exprs draws text) (hu : u.IsUncalled)
    (hdraws : ∀ x ∈ draws, x.category ∉ PassKind.stackToHeap.categories) :
    Followed call text [] := by
  have hspares := hu.spares hcall
  cases h with
  | fixed known => exact followed_fixed hcall known
  | @marked c kind lead fields id known leads quoted =>
    have hend : Quiet call "*/" := quiet_callPiece hcall (by decide)
    have hline := followed_line hcall <| quiet_call_marker hcall id leads
      (mem_allKinds_of_marker known).1 (fun f hf => (hspares f (quoted f hf)).field) hend
    simp only [String.append_assoc] at hline
    rw [marked_eq]
    exact hline
  | probed id known leads format quoted within evaluated =>
    exact followed_probed hcall id hspares leads (mem_allKinds_of_probe known).1 quoted format within
      evaluated
  | @closing hook id known =>
    have hstems : ∀ hook ∈ Hooks.all, Hooks.closerStem hook ∈ callPieces := by decide
    have hparen : Closes call ")" := closes_call hcall (by decide)
    exact followed_of_quiet (((quiet_callPiece hcall (hstems hook known)).append
      ((setApart_call hcall).quiet_number id)).append hparen.quiet)
  | forwarded quoted => exact followed_forwarding hcall hspares quoted
  | moved id isInitialized quoted element innermost =>
    exact absurd (by decide : Category.heap ∈ _) (hdraws _ List.mem_cons_self)
  | freed calls quoted =>
    cases calls with
    | nil => exact followed_of_quiet ⟨fun _ => True.intro⟩
    | cons call calls =>
      exact absurd (by decide : Category.free ∈ _) (hdraws _ List.mem_cons_self)

/-- A line of a flag array calls no helper. -/
theorem followed_flagLine (hlead : lead ∈ flagLeads) (c : Category) (n : Nat) :
    Followed call (lead ++ (Probe.flagStem c ++ (toString n ++ "];\n"))) [] := by
  have hleads : ∀ lead ∈ flagLeads, lead ∈ callPieces := by decide
  have hstems : ∀ c ∈ Category.all, Probe.flagStem c ∈ callPieces := by decide
  have hend : Quiet call "];" := quiet_callPiece hcall (by decide)
  have hline := followed_line hcall ((quiet_callPiece hcall (hleads lead hlead)).append
    ((quiet_callPiece hcall (hstems c (by cases c <;> decide))).append
      (((setApart_call hcall).quiet_number n).append hend)))
  simp only [String.append_assoc] at hline
  exact hline

/-- Lines in a row call no helper. -/
theorem followed_lines {α : Type} {line : α → String} {l : List α}
    (hl : ∀ a ∈ l, Followed call (line a) [] ∧ StartsAmong openings (line a)) :
    Followed call (String.join (l.map line)) [] := by
  have hlines := followed_join fun a ha => ⟨(hl a ha).1, fresh_of_startsAmong hcall (hl a ha).2⟩
  rwa [List.flatMap_eq_nil_iff.mpr fun _ _ => rfl] at hlines

theorem followed_flagDefinition (c : Category) (n : Nat) :
    Followed call (Probe.flagDefinition c n) [] := by
  rw [flagDefinition_eq]
  exact followed_flagLine hcall List.mem_cons_self c n

/-- A definition of a hook calls no helper. -/
theorem followed_hookLine {hook : Hooks.Hook} (hhook : hook ∈ Hooks.all) (n : Nat) :
    Followed call ("#define " ++ hook.tag ++ toString n ++ " \n") [] := by
  have htags : ∀ hook ∈ Hooks.all, hook.tag ∈ callPieces := by decide
  have hdefine : Quiet call "#define " := quiet_callPiece hcall (by decide)
  have hblank : Quiet call " " := quiet_callPiece hcall (by decide)
  have hline := followed_line hcall <|
    ((hdefine.append (quiet_callPiece hcall (htags hook hhook))).append
      ((setApart_call hcall).quiet_number n)).append hblank
  rw [String.append_assoc] at hline
  exact hline

/-- **The lines at the start of a file** call no helper. -/
theorem Heading.followed (h : Heading ruleName text) : Followed call text [] := by
  cases h with
  | flags lines isDefinition known =>
    refine followed_lines hcall fun line _ => ⟨?_, startsAmong_flagLine isDefinition line⟩
    split
    · exact followed_flagDefinition hcall line.1 line.2
    · rw [flagDeclaration_eq]
      exact followed_flagLine hcall (.tail _ (.head _)) line.1 line.2
  | hooks lines known =>
    exact followed_lines hcall fun line hline =>
      ⟨followed_hookLine hcall (known line hline) line.2, startsAmong_hookLine line⟩
  | @helpers helpers count known =>
    have hheader : Followed call header [] :=
      followed_line hcall (s := "#include<stdlib.h>") (quiet_callPiece hcall (by decide))
    have hhelpers : Followed call (String.join (helpers.map fun helper => helper.2 ++ "\n")) [] :=
      followed_lines hcall fun helper hhelper => ⟨followed_line hcall (quiet_helperText hcall
        (known helper hhelper)), startsAmong_helperLine (known helper hhelper)⟩
    have hcount : Followed call ((count.map (Probe.flagDefinition .free)).getD "") [] ∧
        StartsAmong openings ((count.map (Probe.flagDefinition .free)).getD "") := by
      cases count with
      | none => exact ⟨followed_of_quiet ⟨fun _ => True.intro⟩, fun _ h => nomatch h⟩
      | some n =>
        exact ⟨followed_flagDefinition hcall .free n, startsAmong_flagLine true (.free, n)⟩
    refine (hheader.append hhelpers (fresh_of_startsAmong hcall (startsAmong_join ?_))).append
      hcount.1 (fresh_of_startsAmong hcall hcount.2)
    intro s hs
    obtain ⟨helper, hhelper, rfl⟩ := List.mem_map.mp hs
    exact startsAmong_helperLine (known helper hhelper)

end

end ProbeWeaver
