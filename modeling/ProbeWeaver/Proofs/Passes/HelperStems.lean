import ProbeWeaver.Proofs.Passes.HelperCalls

/-!
# Proofs/Passes/HelperStems — where inserted text defines helpers

The lines of helpers are the header and definitions (`Relocation.lineStems`).  No other text that
rules insert holds one, as long as the file's quotes hold none (`Inserted.quiet_stem`,
`Heading.quiet_stem`).
-/

namespace ProbeWeaver

open Text Relocation

variable {u : SourceUnit} {exprs : List Node} {draws : List Draw}
  {text stem s f lead name ruleName : String} {fields : List String} {type : CType}

/-- **How the lines of helpers start**: the header, and each definition up to its parameters. -/
def Relocation.lineStems : List String := "#include<stdlib.h>" :: helperCalls.map defineStem

/-- The fixed pieces in which none of the lines starts. -/
def stemPieces : List String :=
  ["\n", "", markerStart, "*/", "*/\n", "]++;\x7d\n", "\ninit_arr_", "\nfree_", "(",
    "_uninit(", "/*I::*/ int ", "/*I::*/ extern int ", "];\n", " \n"] ++ probePieces ++ fixedTexts ++
    Hooks.all.map Hooks.closerStem ++ Category.all.map Probe.flagStem ++
    Hooks.all.map Hooks.defineStem

/-- What may follow a quote. -/
def stemClosers : List String := [",", ");", ")", ")+1", ", MUT_", ", ", "\n"]

section

variable (hstem : stem ∈ lineStems)
include hstem

theorem quiet_stemPiece (hs : s ∈ stemPieces) : Quiet stem s := by
  have hstarts : ∀ stem ∈ lineStems, ∃ start ∈ ["#include", "#define init_arr_", "#define free_"],
      start.toList <+: stem.toList := by
    decide
  have hall : ∀ s ∈ stemPieces, ∀ start ∈ ["#include", "#define init_arr_", "#define free_"],
      clashes (bytes start) [] (bytes s) = true := by
    decide +kernel
  obtain ⟨start, hstart, hprefix⟩ := hstarts stem hstem
  exact (quiet_of_clashes (hall s hs start hstart)).of_longer hprefix

theorem closes_stem (hf : f ∈ stemClosers) : Closes stem f := by
  have hall : ∀ stem ∈ lineStems, ∀ f ∈ stemClosers,
      cutsOff stem.toList f.toList = true ∧ clashes (bytes stem) [] (bytes f) = true := by
    decide +kernel
  obtain ⟨hcuts, hclashes⟩ := hall stem hstem f hf
  exact ⟨hcuts, quiet_of_clashes hclashes⟩

/-- **The lines can be told from probes.** -/
theorem setApart_stem : Text.SetApart stem where
  start := by
    have hall : ∀ stem ∈ lineStems, stem.toList.head?.any (!·.isDigit) = true := by decide
    exact hall stem hstem
  pieces := fun s hs => quiet_stemPiece hstem <| by
    simp only [stemPieces, List.mem_append]
    tauto
  closes := fun f hf => by
    have hall : ∀ f ∈ [",", ");"], f ∈ stemClosers := by decide
    exact closes_stem hstem (hall f hf)
  paren := fun h => (closes_stem hstem (by decide)).append h.quiet
  past := fun h => (closes_stem hstem (by decide)).append h.quiet

/-- A marker is no line of helpers. -/
theorem quiet_stem_marker {kind : String} (id : Nat) (hlead : lead ∈ ["", "\n"])
    (hkind : kind ∈ allKinds) (hfields : ∀ f ∈ fields, Quiet stem (f ++ ":")) (hs : Quiet stem s) :
    Quiet stem (lead ++ (markerStart ++ (markerBody id kind fields ++ s))) := by
  have hleads : ∀ lead ∈ ["", "\n"], lead ∈ stemPieces := by decide
  have hstart : Quiet stem markerStart := quiet_stemPiece hstem (by decide)
  exact (setApart_stem hstem).quiet_marker id
    ((quiet_stemPiece hstem (hleads lead hlead)).append hstart) hkind hfields hs

/-- The call of a helper is none either, up to its parenthesis. -/
theorem quiet_stem_copyCall (rank : Nat) (isInitialized : Bool) :
    Quiet stem (copyCall rank isInitialized) := by
  have hend : Quiet stem ((if isInitialized then "" else "_uninit") ++ "(") := by
    cases isInitialized with
    | true => exact quiet_stemPiece hstem (by decide : "(" ∈ _)
    | false => exact quiet_stemPiece hstem (by decide : "_uninit(" ∈ _)
  have hname : Quiet stem "\ninit_arr_" := quiet_stemPiece hstem (by decide)
  exact hname.append (((setApart_stem hstem).quiet_number rank).append hend)

theorem quiet_stem_releaseCall (rank : Nat) : Quiet stem (releaseCall rank) := by
  have hname : Quiet stem "\nfree_" := quiet_stemPiece hstem (by decide)
  have hparen : Quiet stem "(" := quiet_stemPiece hstem (by decide)
  exact hname.append (((setApart_stem hstem).quiet_number rank).append hparen)

theorem quiet_stem_heapCopy (id : Nat) (isInitialized : Bool) (hu : u.Spares stem)
    (hname : name ∈ u.quotes) (helement : elementSpelling type ∈ u.quotes)
    (hinnermost : type.innermost.unqualified.render ∈ u.quotes) :
    Quiet stem (heapCopy id name type isInitialized) := by
  have hcomma : Closes stem ", " := closes_stem hstem (by decide)
  have hparen : Closes stem ")" := closes_stem hstem (by decide)
  have hend : Quiet stem "*/" := quiet_stemPiece hstem (by decide)
  have hcolon : Quiet stem ":" := quiet_stemPiece hstem (by decide)
  have hshadow : Closes stem ", MUT_" := closes_stem hstem (by decide)
  have harguments := (quiet_arguments hshadow (hu name hname).apart hcomma).append
    (hparen.quiet_append (hu _ hinnermost).apart)
  rw [String.append_assoc] at harguments
  rw [heapCopy_eq_call]
  refine quiet_stem_marker hstem id (by decide) (by decide) ?_
    (hend.append ((quiet_stem_copyCall hstem _ isInitialized).append harguments))
  exact List.forall_mem_cons.mpr ⟨(hu _ helement).field, List.forall_mem_cons.mpr
    ⟨(hu _ hname).field, List.forall_mem_singleton.mpr
      (((setApart_stem hstem).quiet_number _).append hcolon)⟩⟩

theorem quiet_stem_freeCall (id : Nat) (hu : u.Spares stem) (hname : name ∈ u.quotes)
    (helement : elementSpelling type ∈ u.quotes) : Quiet stem (freeCall id name type) := by
  have hparen : Closes stem ");" := closes_stem hstem (by decide)
  have hbreak : Quiet stem "\n" := quiet_stemPiece hstem (by decide)
  have hend : Quiet stem "*/" := quiet_stemPiece hstem (by decide)
  have hshadow : Closes stem ", MUT_" := closes_stem hstem (by decide)
  have hfields : ∀ f ∈ [elementSpelling type, name], Quiet stem (f ++ ":") :=
    List.forall_mem_cons.mpr ⟨(hu _ helement).field, List.forall_mem_singleton.mpr (hu _ hname).field⟩
  have hcall := quiet_stem_marker hstem id List.mem_cons_self
    (by decide : "VARREF_FREE" ∈ allKinds) hfields (hend.append
      ((quiet_stem_releaseCall hstem type.arrayRank).append
        (quiet_arguments hshadow (hu name hname).apart (hparen.append hbreak))))
  rwa [String.empty_append, ← freeCall_eq_call] at hcall

/-- A probe is no line of helpers. -/
theorem quiet_stem_probed {c : Category} {kind before behind : String} {args : List String}
    (id : Nat) (hu : u.Spares stem) (hlead : lead ∈ ["", "\n"]) (hkind : kind ∈ allKinds)
    (hfields : ∀ f ∈ fields, f ∈ u.quotes) (hformat : (before, behind) ∈ probeFormats)
    (hexprs : ∀ e ∈ exprs, e ∈ u.root.walk) (hargs : ∀ arg ∈ args, Argument u exprs arg) :
    Quiet stem (lead ++ Observation.markedProbe c id kind fields
      (before ++ toString id ++ behind) args) := by
  have hstems : ∀ c ∈ Category.all, Probe.flagStem c ∈ stemPieces := by decide
  have hflag : Quiet stem (Probe.flagStem c) :=
    quiet_stemPiece hstem (hstems c (by cases c <;> decide))
  have hclose : Quiet stem "]++;\x7d\n" := quiet_stemPiece hstem (by decide)
  rw [probed_eq]
  exact quiet_stem_marker hstem id hlead hkind (fun f hf => (hu f (hfields f hf)).field)
    ((setApart_stem hstem).quiet_probe id hflag hclose hu hexprs hargs hformat)

/-- **No inserted text holds a line of helpers.** -/
theorem Inserted.quiet_stem (h : Inserted u exprs draws text) (hu : u.Spares stem) :
    Quiet stem text := by
  cases h with
  | fixed known =>
    refine quiet_stemPiece hstem ?_
    simp only [stemPieces, List.mem_append]
    tauto
  | marked id known leads quoted =>
    have hend : Quiet stem "*/\n" := quiet_stemPiece hstem (by decide)
    rw [marked_eq]
    exact quiet_stem_marker hstem id leads (mem_allKinds_of_marker known).1
      (fun f hf => (hu f (quoted f hf)).field) hend
  | probed id known leads format quoted within evaluated =>
    exact quiet_stem_probed hstem id hu leads (mem_allKinds_of_probe known).1 quoted format within
      evaluated
  | @closing hook id known =>
    have hstems : ∀ hook ∈ Hooks.all, Hooks.closerStem hook ∈ stemPieces := by decide
    have hparen : Closes stem ")" := closes_stem hstem (by decide)
    exact ((quiet_stemPiece hstem (hstems hook known)).append
      ((setApart_stem hstem).quiet_number id)).append hparen.quiet
  | @forwarded name quoted =>
    have hbreak : Closes stem "\n" := closes_stem hstem (by decide)
    have hline := (hu name quoted).defined.append (hbreak.quiet_append (hu name quoted).apart)
    simp only [String.append_assoc] at hline
    rw [forwarding_eq]
    exact hline
  | moved id isInitialized quoted element innermost =>
    exact quiet_stem_heapCopy hstem id isInitialized hu quoted element innermost
  | freed calls quoted =>
    refine quiet_join fun s hs => ?_
    obtain ⟨call, hcall, rfl⟩ := List.mem_map.mp hs
    obtain ⟨hname, helement⟩ := quoted call hcall
    exact quiet_stem_freeCall hstem call.1 hu hname helement

/-- A line of a flag array is no line of helpers. -/
theorem quiet_stem_flagLine (hlead : lead ∈ flagLeads) {c : Category}
    (hc : c ∈ Tracing.flagCategories) (n : Nat) :
    Quiet stem (lead ++ (Probe.flagStem c ++ (toString n ++ "];\n"))) := by
  have hleads : ∀ lead ∈ flagLeads, lead ∈ stemPieces := by decide
  have hstems : ∀ c ∈ Tracing.flagCategories, Probe.flagStem c ∈ stemPieces := by decide
  have hend : Quiet stem "];\n" := quiet_stemPiece hstem (by decide)
  exact (quiet_stemPiece hstem (hleads lead hlead)).append
    ((quiet_stemPiece hstem (hstems c hc)).append
      (((setApart_stem hstem).quiet_number n).append hend))

/-- **The lines of other rules** at the start of a file are no lines of helpers. -/
theorem Heading.quiet_stem (h : Heading ruleName text) (hname : ruleName ≠ helperRule.name) :
    Quiet stem text := by
  cases h with
  | flags lines isDefinition known =>
    refine quiet_join fun s hs => ?_
    obtain ⟨line, hline, rfl⟩ := List.mem_map.mp hs
    split
    · rw [flagDefinition_eq]
      exact quiet_stem_flagLine hstem List.mem_cons_self (known line hline) line.2
    · rw [flagDeclaration_eq]
      exact quiet_stem_flagLine hstem (.tail _ (.head _)) (known line hline) line.2
  | hooks lines known =>
    refine quiet_join fun s hs => ?_
    obtain ⟨line, hline, rfl⟩ := List.mem_map.mp hs
    have hstems : ∀ hook ∈ Hooks.all, Hooks.defineStem hook ∈ stemPieces := by decide
    have hend : Quiet stem " \n" := quiet_stemPiece hstem (by decide)
    exact ((quiet_stemPiece hstem (hstems _ (known line hline))).append
      ((setApart_stem hstem).quiet_number line.2)).append hend
  | helpers count known => exact absurd rfl hname

end

end ProbeWeaver
