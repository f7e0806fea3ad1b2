import ProbeWeaver.Proofs.Passes.Texts
import ProbeWeaver.Proofs.Text.Occurrences

/-!
# Proofs/Passes/Pieces — the pieces that inserted text is put together from

Four things are looked for in inserted text: the start of a marker, the closer of a hook, the name
of a flag array, and the definition of a hook (`needles`).  The fixed pieces hold none of them
(`quiet_piece`), foreign pieces hold none when the quotes of the file do not (`SourceUnit.Spares`),
so each stands only where a marker, a closer, a probe or a definition is written.
-/

namespace ProbeWeaver

open Text

variable {u : SourceUnit} {exprs : List Node} {needle s f q arg kind : String} {fields : List String}
  {args : List String}

/-! ## What is looked for -/

/-- The start of a marker, up to its number. -/
def markerStart : String := "/*I:ID"

/-- The start of a mention of a flag array, up to its index. -/
def Probe.flagStem (c : Category) : String := flagName c ++ "["

/-- The start of a definition of a hook, up to its number. -/
def Hooks.defineStem (h : Hooks.Hook) : String := "#define " ++ h.tag

/-- **What is looked for** in inserted text. -/
def needles : List String :=
  markerStart :: (Hooks.all.map Hooks.closerStem ++ Tracing.flagCategories.map Probe.flagStem ++
    Hooks.all.map Hooks.defineStem)

/-- A foreign text neither holds the needle nor begins one that a colon goes on with, nor goes on
with one as the name in a definition. -/
structure Text.Spares (needle q : String) : Prop where
  apart : contains q needle = false
  field : Quiet needle (q ++ ":")
  defined : Quiet needle ("\n#define " ++ (q ++ " MUT_"))

/-- **The file's quotes are free of the needle.** -/
def SourceUnit.Spares (u : SourceUnit) (needle : String) : Prop :=
  ∀ q ∈ u.quotes, Text.Spares needle q

/-! ## Fixed pieces -/

/-- The kinds of all markers. -/
def allKinds : List String :=
  markerKinds.map (·.2) ++ probeKinds.map (·.2) ++ ["VARDECLHEAP", "VARREF_FREE"]

/-- The fixed pieces of markers and probes, but for the name of the flag and the ends of lines. -/
def probePieces : List String :=
  ["", ":", "*/if (", "]!=2) \x7bprintf(\"", "\\n\"", "(", "&(", "(int)sizeof(", ")(", "long long",
    "unsigned long long"] ++ allKinds ++ probeFormats.map (·.1) ++
    probeFormats.map (·.2 ++ "\\n\"")

/-- **The needle can be told from probes**: it starts with no digit, none of their fixed pieces starts
one, and none goes on behind a quote in them. -/
structure Text.SetApart (needle : String) : Prop where
  start : needle.toList.head?.any (!·.isDigit) = true
  pieces : ∀ s ∈ probePieces, Quiet needle s
  closes : ∀ f ∈ [",", ");"], Closes needle f
  paren : ∀ {f : String}, Closes needle f → Closes needle (")" ++ f)
  past : ∀ {f : String}, Closes needle f → Closes needle (")+1" ++ f)

/-- **The pieces of inserted text** in which none of the needles starts. -/
def quietPieces : List String :=
  ["", "\n", ":", "*/\n", "*/if (", "*/\ninit_arr_", "*/\nfree_", "]!=2) \x7bprintf(\"", "\\n\"", ",", ");", "]++;\x7d\n", "(", "&(",
    "(int)sizeof(", ")(", "long long", "unsigned long long", " MUT_", "MUT_", "_uninit", ", MUT_",
    ", ", ");\n", "/*I::*/ int ", "/*I::*/ extern int ", "];\n", " \n", Relocation.header,
    Braces.opening, Braces.closing, Hooks.opener] ++ allKinds ++ Hooks.all.map (·.tag) ++
    probeFormats.map (·.1) ++ probeFormats.map (·.2 ++ "\\n\"") ++
    Relocation.helperMacros.map (·.2 ++ "\n")

/-- What needles start with. -/
def needleStarts : List String := ["/*I:I", ") _", "print_flag_", "#define _"]

/-- How each needle starts. -/
theorem exists_start (hneedle : needle ∈ needles) :
    ∃ start ∈ needleStarts, start.toList <+: needle.toList := by
  have hall : ∀ n ∈ needles, ∃ start ∈ needleStarts, start.toList <+: n.toList := by
    decide
  exact hall needle hneedle

theorem quiet_piece (hneedle : needle ∈ needles) (hs : s ∈ quietPieces) : Quiet needle s := by
  have hall : ∀ s ∈ quietPieces, ∀ start ∈ needleStarts,
      clashes (bytes start) [] (bytes s) = true := by
    decide +kernel
  obtain ⟨start, hstart, hprefix⟩ := exists_start hneedle
  exact (quiet_of_clashes (hall s hs start hstart)).of_longer hprefix

theorem quiet_markerStart (hneedle : needle ∈ needles) (hne : needle ≠ markerStart) :
    Quiet needle markerStart := by
  have hall : ∀ n ∈ needles, n ≠ markerStart → clashes (bytes n) [] (bytes markerStart) = true := by
    decide +kernel
  exact quiet_of_clashes (hall needle hneedle hne)

theorem quiet_flagStem {c : Category} (hneedle : needle ∈ needles)
    (hc : c ∈ .free :: Tracing.flagCategories) (hne : needle ≠ Probe.flagStem c) :
    Quiet needle (Probe.flagStem c) := by
  have hall : ∀ n ∈ needles, ∀ c ∈ .free :: Tracing.flagCategories, n ≠ Probe.flagStem c →
      clashes (bytes n) [] (bytes (Probe.flagStem c)) = true := by
    decide +kernel
  exact quiet_of_clashes (hall needle hneedle c hc hne)

theorem needle_ne_nil (hneedle : needle ∈ needles) : needle.toList ≠ [] := by
  have hall : ∀ n ∈ needles, n.toList ≠ [] := by decide
  exact hall needle hneedle

/-- **What may follow a quote.** -/
def closers : List String := [",", ");", " MUT_", "\n", ", MUT_", ", ", ");\n"]

theorem closes_of_mem (hneedle : needle ∈ needles) (hf : f ∈ closers) : Closes needle f := by
  have hall : ∀ n ∈ needles, ∀ f ∈ closers,
      cutsOff n.toList f.toList = true ∧ clashes (bytes n) [] (bytes f) = true := by
    decide +kernel
  obtain ⟨hcuts, hclashes⟩ := hall needle hneedle f hf
  exact ⟨hcuts, quiet_of_clashes hclashes⟩

theorem cutsOff_paren (hneedle : needle ∈ needles) :
    cutsOff needle.toList ")".toList = true := by
  have hall : ∀ n ∈ needles, cutsOff n.toList ")".toList = true := by decide
  exact hall needle hneedle

/-- What closes foreign texts still does behind a character that no needle goes on with. -/
theorem closes_cons {c : Char} (hneedle : needle ∈ needles) (hc : c ∈ [')', '+', '1'])
    (h : Closes needle f) : Closes needle (String.singleton c ++ f) := by
  have hall : (needles.all fun n => [')', '+', '1'].all fun c =>
      decide (c ∉ n.toList.tail) && !n.toList.tail.isEmpty) = true := by
    decide
  have hthis := List.all_eq_true.mp (List.all_eq_true.mp hall needle hneedle) c hc
  rw [Bool.and_eq_true, decide_eq_true_iff, Bool.not_eq_true', List.isEmpty_eq_false_iff] at hthis
  exact h.cons hthis.2 hthis.1

/-! ## Pieces put together -/

section Together

theorem quiet_fields (h : ∀ f ∈ fields, Quiet needle (f ++ ":")) :
    Quiet needle (String.join (fields.map (· ++ ":"))) :=
  quiet_join fun s hs => by
    obtain ⟨f, hf, rfl⟩ := List.mem_map.mp hs
    exact h f hf

/-- What stands in a marker between its start and its end. -/
def markerBody (id : Nat) (kind : String) (fields : List String) : String :=
  toString id ++ (":" ++ (kind ++ (":" ++ String.join (fields.map (· ++ ":")))))

theorem marker_eq (id : Nat) (kind : String) (fields : List String) :
    marker (some id) kind fields = markerStart ++ (markerBody id kind fields ++ "*/") := by
  rw [marker, markerBody, Option.map_some, Option.getD_some]
  simp only [String.append_assoc]
  rfl

variable (happart : Text.SetApart needle)
include happart

/-- A number holds no needle. -/
theorem Text.SetApart.quiet_number (n : Nat) : Quiet needle (toString n) := by
  have hhead := happart.start
  cases hcs : needle.toList with
  | nil =>
    rw [hcs] at hhead
    contradiction
  | cons c rest =>
    rw [hcs, List.head?_cons, Option.any_some, Bool.not_eq_true'] at hhead
    exact quiet_toString hcs hhead n

/-- **What stands behind the start of a marker** is quiet. -/
theorem Text.SetApart.quiet_markerBody (id : Nat) (hkind : kind ∈ allKinds)
    (h : ∀ f ∈ fields, Quiet needle (f ++ ":")) : Quiet needle (markerBody id kind fields) := by
  have hcolon : Quiet needle ":" := happart.pieces _ (by decide)
  have hkinds : ∀ k ∈ allKinds, k ∈ probePieces := by decide
  exact (happart.quiet_number id).append
    (hcolon.append ((happart.pieces _ (hkinds kind hkind)).append
      (hcolon.append (quiet_fields h))))

/-- A marker is quiet, if its start is. -/
theorem Text.SetApart.quiet_marker {lead s : String} (id : Nat)
    (hstart : Quiet needle (lead ++ markerStart)) (hkind : kind ∈ allKinds)
    (h : ∀ f ∈ fields, Quiet needle (f ++ ":")) (hs : Quiet needle s) :
    Quiet needle (lead ++ (markerStart ++ (markerBody id kind fields ++ s))) := by
  rw [← String.append_assoc]
  exact hstart.append ((happart.quiet_markerBody id hkind h).append hs)

/-- **An argument of a probe** is quiet in front of what may follow a quote. -/
theorem Argument.quiet_append (harg : Argument u exprs arg) (hu : u.Spares needle)
    (hexprs : ∀ e ∈ exprs, e ∈ u.root.walk) : ∀ {f : String}, Closes needle f →
      Quiet needle (arg ++ f) := by
  have hquoted {e : Node} (he : e ∈ exprs) {q : String} (hq : q ∈ u.quotesAt e) :
      contains q needle = false :=
    (hu q (List.mem_cons_of_mem _ (List.mem_flatMap.mpr ⟨e, hexprs e he, hq⟩))).apart
  have htext {e : Node} (he : e ∈ exprs) : contains (u.text e) needle = false :=
    hquoted he (by simp [SourceUnit.quotesAt])
  have hoperand {e : Node} (he : e ∈ exprs) :
      contains (Observation.operandText u e) needle = false :=
    hquoted he (by simp [SourceUnit.quotesAt])
  induction harg with
  | value he =>
    exact fun h => h.quiet_append (htext he)
  | address he =>
    intro f h
    have haddress : Quiet needle "&(" := happart.pieces _ (by decide)
    rw [String.append_assoc, String.append_assoc]
    exact haddress.append ((happart.paren h).quiet_append (htext he))
  | past _ ih =>
    intro f h
    rw [String.append_assoc, String.append_assoc]
    exact (happart.pieces _ (by decide)).append (ih (happart.past h))
  | operand hknown he =>
    intro f h
    have hcast : ∀ cast ∈ ["long long", "unsigned long long"], cast ∈ probePieces := by decide
    have hfirst : Quiet needle "(" := happart.pieces _ (by decide)
    have hsecond : Quiet needle ")(" := happart.pieces _ (by decide)
    have hcast := happart.pieces _ (hcast _ hknown)
    rw [String.append_assoc, String.append_assoc, String.append_assoc, String.append_assoc]
    have hoperand := hoperand he
    generalize Observation.operandText u _ = operand at hoperand ⊢
    exact hfirst.append (hcast.append (hsecond.append ((happart.paren h).quiet_append hoperand)))
  | size hq =>
    intro f h
    have hsize : Quiet needle "(int)sizeof(" := happart.pieces _ (by decide)
    rw [String.append_assoc, String.append_assoc]
    exact hsize.append ((happart.paren h).quiet_append (hu _ hq).apart)

/-- **The arguments of a probe**, and the end of the call, close what stands before. -/
theorem closes_arguments (hu : u.Spares needle) (hexprs : ∀ e ∈ exprs, e ∈ u.root.walk) :
    ∀ {args : List String}, (∀ arg ∈ args, Argument u exprs arg) →
      Closes needle (String.join (args.map ("," ++ ·)) ++ ");")
  | [], _ => by
      have hend : Closes needle ");" := happart.closes _ (by decide)
      exact hend
  | arg :: args, h => by
      have hcomma : Closes needle "," := happart.closes _ (by decide)
      have hrest := closes_arguments hu hexprs fun a ha => h a (List.mem_cons_of_mem arg ha)
      have harg := (h arg List.mem_cons_self).quiet_append happart hu hexprs hrest
      rw [List.map_cons, String.join_cons, String.append_assoc, String.append_assoc]
      exact hcomma.append harg

end Together

/-- **The needles can be told from probes.** -/
theorem setApart (hneedle : needle ∈ needles) : Text.SetApart needle where
  start := by
    have hall : ∀ n ∈ needles, n.toList.head?.any (!·.isDigit) = true := by decide
    exact hall needle hneedle
  pieces := fun s hs => by
    have hall : ∀ s ∈ probePieces, s ∈ quietPieces := by decide
    exact quiet_piece hneedle (hall s hs)
  closes := fun f hf => by
    have hall : ∀ f ∈ [",", ");"], f ∈ closers := by decide
    exact closes_of_mem hneedle (hall f hf)
  paren := closes_cons (c := ')') hneedle (by decide)
  past := fun h => closes_cons (c := ')') hneedle (by decide)
    (closes_cons (c := '+') hneedle (by decide) (closes_cons (c := '1') hneedle (by decide) h))

theorem quiet_number (hneedle : needle ∈ needles) (n : Nat) : Quiet needle (toString n) :=
  (setApart hneedle).quiet_number n

/-! ## Texts as pieces -/

theorem marked_eq (id : Nat) (lead kind : String) (fields : List String) :
    lead ++ marker (some id) kind fields ++ "\n" =
      lead ++ (markerStart ++ (markerBody id kind fields ++ "*/\n")) := by
  rw [marker_eq]
  simp only [String.append_assoc]
  rfl

/-- What stands in a probe between the mentions of its flag. -/
def statementBody (id : Nat) (before behind : String) (args : List String) : String :=
  "]!=2) \x7bprintf(\"" ++ (before ++ (toString id ++ ((behind ++ "\\n\"") ++
    (String.join (args.map ("," ++ ·)) ++ ");"))))

theorem probed_eq (c : Category) (id : Nat) (lead kind before behind : String)
    (fields args : List String) :
    lead ++ Observation.markedProbe c id kind fields (before ++ toString id ++ behind) args =
      lead ++ (markerStart ++ (markerBody id kind fields ++ ("*/if (" ++ (Probe.flagStem c ++
        (toString id ++ (statementBody id before behind args ++ (Probe.flagStem c ++
          (toString id ++ "]++;\x7d\n")))))))) := by
  unfold Observation.markedProbe Probe.statement statementBody Probe.flagStem
  rw [marker_eq]
  simp only [String.append_assoc]
  rfl

/-- What stands in a heap copy between its marker and the last argument. -/
def heapTail (name : String) (rank : Nat) (isInitialized : Bool) : String :=
  "*/\ninit_arr_" ++ (toString rank ++ ((if isInitialized then "" else "_uninit") ++
    ("(" ++ (name ++ (", MUT_" ++ (name ++ ", "))))))

theorem heapCopy_eq (id : Nat) (name : String) (type : CType) (isInitialized : Bool) :
    Relocation.heapCopy id name type isInitialized = "\n" ++ (markerStart ++
      (markerBody id "VARDECLHEAP"
        [Relocation.elementSpelling type, name, toString type.arrayRank] ++
          (heapTail name type.arrayRank isInitialized ++
            (type.innermost.unqualified.render ++ ")")))) := by
  unfold Relocation.heapCopy heapTail
  dsimp only
  rw [marker_eq]
  simp only [String.append_assoc]
  rfl

/-- What stands in a call that frees behind its marker. -/
def freeTail (name : String) (rank : Nat) : String :=
  "*/\nfree_" ++ (toString rank ++ ("(" ++ (name ++ (", MUT_" ++ (name ++ ");\n")))))

theorem freeCall_eq (id : Nat) (name : String) (type : CType) :
    Relocation.freeCall id name type = markerStart ++
      (markerBody id "VARREF_FREE" [Relocation.elementSpelling type, name] ++
        freeTail name type.arrayRank) := by
  unfold Relocation.freeCall freeTail
  rw [marker_eq]
  simp only [String.append_assoc]
  rfl

theorem forwarding_eq (name : String) :
    Relocation.forwarding name =
      "\n#define " ++ (name ++ (" MUT_" ++ (name ++ "\n"))) := by
  unfold Relocation.forwarding
  simp only [String.append_assoc]

/-- What stands in a line of flags in front of the array. -/
def flagLeads : List String := ["/*I::*/ int ", "/*I::*/ extern int "]

theorem flagDefinition_eq (c : Category) (n : Nat) : Probe.flagDefinition c n =
    "/*I::*/ int " ++ (Probe.flagStem c ++ (toString n ++ "];\n")) := by
  unfold Probe.flagDefinition Probe.flagStem
  simp only [String.append_assoc]

theorem flagDeclaration_eq (c : Category) (n : Nat) : Probe.flagDeclaration c n =
    "/*I::*/ extern int " ++ (Probe.flagStem c ++ (toString n ++ "];\n")) := by
  unfold Probe.flagDeclaration Probe.flagStem
  simp only [String.append_assoc]

/-- **What stands in a probe between the mentions of its flag** is quiet. -/
theorem Text.SetApart.quiet_statementBody {before behind : String} (happart : Text.SetApart needle)
    (id : Nat) (hu : u.Spares needle) (hexprs : ∀ e ∈ exprs, e ∈ u.root.walk)
    (hargs : ∀ arg ∈ args, Argument u exprs arg) (hformat : (before, behind) ∈ probeFormats) :
    Quiet needle (statementBody id before behind args) := by
  have hformats : ∀ format ∈ probeFormats,
      format.1 ∈ probePieces ∧ format.2 ++ "\\n\"" ∈ probePieces := by
    decide
  obtain ⟨hbefore, hbehind⟩ := hformats _ hformat
  have hopen : Quiet needle "]!=2) \x7bprintf(\"" := happart.pieces _ (by decide)
  have hend := (closes_arguments happart hu hexprs hargs).quiet
  exact hopen.append ((happart.pieces _ hbefore).append
    ((happart.quiet_number id).append ((happart.pieces _ hbehind).append hend)))

/-- **What follows the marker of a probe** is quiet, if the name of its flag is. -/
theorem Text.SetApart.quiet_probe {before behind stop : String} (happart : Text.SetApart needle)
    (id : Nat) {c : Category} (hflag : Quiet needle (Probe.flagStem c)) (hstop : Quiet needle stop)
    (hu : u.Spares needle) (hexprs : ∀ e ∈ exprs, e ∈ u.root.walk)
    (hargs : ∀ arg ∈ args, Argument u exprs arg) (hformat : (before, behind) ∈ probeFormats) :
    Quiet needle ("*/if (" ++ (Probe.flagStem c ++ (toString id ++
      (statementBody id before behind args ++ (Probe.flagStem c ++ (toString id ++ stop)))))) := by
  have hstart : Quiet needle "*/if (" := happart.pieces _ (by decide)
  have hbody := happart.quiet_statementBody id hu hexprs hargs hformat
  have hnumber := happart.quiet_number id
  exact hstart.append (hflag.append (hnumber.append (hbody.append (hflag.append
    (hnumber.append hstop)))))

section Quiet

variable {rank : Nat} {name before behind : String} {isInitialized : Bool}
  (hneedle : needle ∈ needles)
include hneedle

theorem quiet_heapTail (hname : contains name needle = false) :
    Quiet needle (heapTail name rank isInitialized) := by
  have hstart : Quiet needle "*/\ninit_arr_" := quiet_piece hneedle (by decide)
  have hkind : Quiet needle (if isInitialized then "" else "_uninit") := by
    split
    · exact quiet_piece hneedle (by decide)
    · exact quiet_piece hneedle (by decide)
  have hopen : Quiet needle "(" := quiet_piece hneedle (by decide)
  have hshadow : Closes needle ", MUT_" := closes_of_mem hneedle (by decide)
  have hcomma : Closes needle ", " := closes_of_mem hneedle (by decide)
  exact hstart.append ((quiet_number hneedle rank).append (hkind.append (hopen.append
    ((hshadow.append (hcomma.quiet_append hname)).quiet_append hname))))

theorem quiet_freeTail (hname : contains name needle = false) :
    Quiet needle (freeTail name rank) := by
  have hstart : Quiet needle "*/\nfree_" := quiet_piece hneedle (by decide)
  have hopen : Quiet needle "(" := quiet_piece hneedle (by decide)
  have hshadow : Closes needle ", MUT_" := closes_of_mem hneedle (by decide)
  have hend : Closes needle ");\n" := closes_of_mem hneedle (by decide)
  exact hstart.append ((quiet_number hneedle rank).append (hopen.append
    ((hshadow.append (hend.quiet_append hname)).quiet_append hname)))

theorem quiet_forwarding (hname : Text.Spares needle name) :
    Quiet needle (Relocation.forwarding name) := by
  have hend : Closes needle "\n" := closes_of_mem hneedle (by decide)
  have hparts := hname.defined.append (hend.quiet_append hname.apart)
  simp only [String.append_assoc] at hparts
  rwa [forwarding_eq]

/-- **What follows the marker of a probe** holds only mentions of its flag. -/
theorem quiet_probe (id : Nat) {c : Category} (hc : c ∈ Tracing.flagCategories)
    (hne : needle ≠ Probe.flagStem c) (hu : u.Spares needle)
    (hexprs : ∀ e ∈ exprs, e ∈ u.root.walk) (hargs : ∀ arg ∈ args, Argument u exprs arg)
    (hformat : (before, behind) ∈ probeFormats) :
    Quiet needle ("*/if (" ++ (Probe.flagStem c ++ (toString id ++
      (statementBody id before behind args ++ (Probe.flagStem c ++
        (toString id ++ "]++;\x7d\n")))))) := by
  have hend : Quiet needle "]++;\x7d\n" := quiet_piece hneedle (by decide)
  have hflag := quiet_flagStem hneedle (List.mem_cons_of_mem _ hc) hne
  exact (setApart hneedle).quiet_probe id hflag hend hu hexprs hargs hformat

/-- A foreign text and a parenthesis, where a text ends. -/
theorem rests_append_paren (hq : contains q needle = false) : rests needle (q ++ ")") = [] := by
  have hparen : ∀ n ∈ needles, rests n ")" = [] := by decide
  have hsilent : Silent needle.toList q.toList (")".toList ++ []) :=
    silent_of_cutsOff (cutsOff_paren hneedle) hq
  rw [List.append_nil] at hsilent
  rw [rests, String.toList_append, restsAfter_append_of_silent hsilent]
  exact hparen needle hneedle

/-- A needle that defines nothing goes on with no name in a definition. -/
theorem quiet_defined (hdefines : ∀ h ∈ Hooks.all, needle ≠ Hooks.defineStem h)
    (hq : contains q needle = false) : Quiet needle ("\n#define " ++ (q ++ " MUT_")) := by
  have hall : ∀ n ∈ needles, (∀ h ∈ Hooks.all, n ≠ Hooks.defineStem h) →
      clashes (bytes n) [] (bytes "\n#define ") = true := by
    decide +kernel
  have hshadow : Closes needle " MUT_" := closes_of_mem hneedle (by decide)
  exact (quiet_of_clashes (hall needle hneedle hdefines)).append (hshadow.quiet_append hq)

/-- A number may stand in a field as well. -/
theorem quiet_numberField (rank : Nat) : Quiet needle (toString rank ++ ":") := by
  have hcolon : Quiet needle ":" := quiet_piece hneedle (by decide)
  exact (quiet_number hneedle rank).append hcolon

/-- **A line of flags** holds a needle only where it names its array. -/
theorem quiet_flagLine {lead : String} {c : Category} (hlead : lead ∈ flagLeads)
    (hc : c ∈ .free :: Tracing.flagCategories) (hne : needle ≠ Probe.flagStem c) (n : Nat) :
    Quiet needle (lead ++ (Probe.flagStem c ++ (toString n ++ "];\n"))) := by
  have hleads : ∀ lead ∈ flagLeads, lead ∈ quietPieces := by decide
  have hend : Quiet needle "];\n" := quiet_piece hneedle (by decide)
  exact (quiet_piece hneedle (hleads lead hlead)).append
    ((quiet_flagStem hneedle hc hne).append ((quiet_number hneedle n).append hend))

theorem quiet_hookLine {hook : Hooks.Hook} (hhook : hook ∈ Hooks.all)
    (hne : needle ≠ Hooks.defineStem hook) (n : Nat) :
    Quiet needle (Hooks.defineStem hook ++ toString n ++ " \n") := by
  have hall : ∀ n ∈ needles, ∀ hook ∈ Hooks.all, n ≠ Hooks.defineStem hook →
      clashes (bytes n) [] (bytes (Hooks.defineStem hook)) = true := by
    decide +kernel
  have hend : Quiet needle " \n" := quiet_piece hneedle (by decide)
  have hstem : Quiet needle (Hooks.defineStem hook) :=
    quiet_of_clashes (hall needle hneedle hook hhook hne)
  exact (hstem.append (quiet_number hneedle n)).append hend

theorem quiet_header : Quiet needle Relocation.header := quiet_piece hneedle (by decide)

theorem quiet_helperLine {helper : String × String} (h : helper ∈ Relocation.helperMacros) :
    Quiet needle (helper.2 ++ "\n") := by
  refine quiet_piece hneedle ?_
  unfold quietPieces
  exact List.mem_append_right _ (List.mem_map.mpr ⟨helper, h, rfl⟩)

/-- The length of the array of freed flags may end the helpers of a file. -/
theorem quiet_freeCount (count : Option Nat) :
    Quiet needle ((count.map (Probe.flagDefinition .free)).getD "") := by
  have hfree : ∀ n ∈ needles, n ≠ Probe.flagStem .free := by decide
  cases count with
  | none => exact quiet_piece hneedle (by decide)
  | some n =>
    simp only [Option.map_some, Option.getD_some, flagDefinition_eq]
    exact quiet_flagLine hneedle List.mem_cons_self List.mem_cons_self (hfree needle hneedle) n

theorem quiet_flagLines {lines : List (Category × Nat)} (isDefinition : Bool)
    (known : ∀ line ∈ lines, line.1 ∈ Tracing.flagCategories)
    (hne : ∀ c ∈ Tracing.flagCategories, needle ≠ Probe.flagStem c) :
    Quiet needle (String.join (lines.map fun line =>
      if isDefinition then Probe.flagDefinition line.1 line.2
      else Probe.flagDeclaration line.1 line.2)) := by
  refine quiet_join fun s hs => ?_
  obtain ⟨line, hline, rfl⟩ := List.mem_map.mp hs
  have hc := List.mem_cons_of_mem .free (known line hline)
  have hne := hne _ (known line hline)
  split
  · rw [flagDefinition_eq]
    exact quiet_flagLine hneedle List.mem_cons_self hc hne line.2
  · rw [flagDeclaration_eq]
    exact quiet_flagLine hneedle (List.mem_cons_of_mem _ List.mem_cons_self) hc hne line.2

theorem quiet_hookLines {lines : List (Hooks.Hook × Nat)}
    (known : ∀ line ∈ lines, line.1 ∈ Hooks.all)
    (hne : ∀ h ∈ Hooks.all, needle ≠ Hooks.defineStem h) :
    Quiet needle (String.join (lines.map fun line =>
      "#define " ++ line.1.tag ++ toString line.2 ++ " \n")) := by
  refine quiet_join fun s hs => ?_
  obtain ⟨line, hline, rfl⟩ := List.mem_map.mp hs
  exact quiet_hookLine hneedle (known line hline) (hne _ (known line hline)) line.2

theorem quiet_helperLines {helpers : List (String × String)}
    (known : ∀ helper ∈ helpers, helper ∈ Relocation.helperMacros) :
    Quiet needle (String.join (helpers.map fun helper => helper.2 ++ "\n")) := by
  refine quiet_join fun s hs => ?_
  obtain ⟨helper, hhelper, rfl⟩ := List.mem_map.mp hs
  exact quiet_helperLine hneedle (known helper hhelper)

/-- **The lines at the start of a file** hold no needle, but for flag arrays in lines of flags and
definitions in lines of hooks. -/
theorem Heading.quiet {ruleName text : String} (h : Heading ruleName text)
    (hflags : ruleName = Tracing.flagRule.name →
      ∀ c ∈ Tracing.flagCategories, needle ≠ Probe.flagStem c)
    (hhooks : ruleName = Hooks.definitionRule.name →
      ∀ h ∈ Hooks.all, needle ≠ Hooks.defineStem h) : Quiet needle text := by
  cases h with
  | flags lines isDefinition known =>
    exact quiet_flagLines hneedle isDefinition known (hflags rfl)
  | hooks lines known => exact quiet_hookLines hneedle known (hhooks rfl)
  | helpers count known =>
    exact ((quiet_header hneedle).append (quiet_helperLines hneedle known)).append
      (quiet_freeCount hneedle count)

end Quiet

end ProbeWeaver
