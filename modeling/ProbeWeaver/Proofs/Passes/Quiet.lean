import ProbeWeaver.Proofs.Passes.Marks
import ProbeWeaver.Proofs.Text.Tails

/-!
# Proofs/Passes/Quiet — which forms of inserted text hold what is looked for

Apart from the start of a marker, each needle stands in texts of one form alone: the name of a flag
array in probes of its category, the closer of a hook in closers, and the definition of a hook in
none (`Inserted.quiet`).  Inserted texts start with one of a few characters
(`Inserted.startsAmong`), so that no needle goes on into one.
-/

namespace ProbeWeaver

open Text
open Tracing (flagCategories)

variable {u : SourceUnit} {exprs : List Node} {draws : List Draw}
  {text needle lead kind rest name ruleName : String} {fields : List String} {type : CType}

/-- The categories of texts that end in a parenthesis, which may begin the closer of a hook. -/
def closedCategories : List Category := .heap :: Hooks.all.map (·.category)

theorem category_mem_closed {hook : Hooks.Hook} (hhook : hook ∈ Hooks.all) :
    hook.category ∈ closedCategories :=
  List.mem_cons_of_mem _ (List.mem_map_of_mem hhook)

/-! ## Pieces that need more than their own needle kept out -/

section

variable (hneedle : needle ∈ needles)
include hneedle

theorem closes_paren (hclosers : ∀ hook ∈ Hooks.all, needle ≠ Hooks.closerStem hook) :
    Closes needle ")" := by
  have hall : ∀ n ∈ needles, (∀ hook ∈ Hooks.all, n ≠ Hooks.closerStem hook) →
      clashes (bytes n) [] (bytes ")") = true := by
    decide +kernel
  exact ⟨cutsOff_paren hneedle, quiet_of_clashes (hall needle hneedle hclosers)⟩

variable (hmarker : needle ≠ markerStart)
include hmarker

theorem quiet_fixed (known : text ∈ fixedTexts) : Quiet needle text := by
  have hall : ∀ n ∈ needles, n ≠ markerStart → ∀ text ∈ fixedTexts,
      clashes (bytes n) [] (bytes text) = true := by
    decide +kernel
  exact quiet_of_clashes (hall needle hneedle hmarker text known)

/-- A marker holds no needle but its own start. -/
theorem quiet_of_marker (id : Nat) (hkind : kind ∈ allKinds) (hlead : lead ∈ ["", "\n"])
    (hfields : ∀ f ∈ fields, Quiet needle (f ++ ":")) (hrest : Quiet needle rest) :
    Quiet needle (lead ++ (markerStart ++ (markerBody id kind fields ++ rest))) :=
  (setApart hneedle).quiet_marker id
    ((quiet_lead hneedle hlead).append (quiet_markerStart hneedle hmarker)) hkind hfields hrest

/-- What moves an array to the heap, up to its last argument. -/
theorem quiet_heapHead (id : Nat) (isInitialized : Bool) (hu : u.Spares needle)
    (quoted : name ∈ u.quotes) (element : Relocation.elementSpelling type ∈ u.quotes) :
    Quiet needle ("\n" ++ (markerStart ++ (markerBody id "VARDECLHEAP"
      [Relocation.elementSpelling type, name, toString type.arrayRank] ++
        heapTail name type.arrayRank isInitialized))) := by
  refine quiet_of_marker hneedle hmarker id (by decide) (by decide) (fun f hf => ?_)
    (quiet_heapTail hneedle (hu _ quoted).apart)
  simp only [List.mem_cons, List.not_mem_nil, or_false] at hf
  rcases hf with rfl | rfl | rfl
  · exact (hu _ element).field
  · exact (hu _ quoted).field
  · exact quiet_numberField hneedle _

theorem quiet_freeCall (id : Nat) (hu : u.Spares needle) (quoted : name ∈ u.quotes)
    (element : Relocation.elementSpelling type ∈ u.quotes) :
    Quiet needle (Relocation.freeCall id name type) := by
  have hfields : ∀ f ∈ [Relocation.elementSpelling type, name], Quiet needle (f ++ ":") :=
    fun f hf => by
      simp only [List.mem_cons, List.not_mem_nil, or_false] at hf
      rcases hf with rfl | rfl
      · exact (hu _ element).field
      · exact (hu _ quoted).field
  have htail : Quiet needle (freeTail name type.arrayRank) :=
    quiet_freeTail hneedle (hu _ quoted).apart
  have hquiet := quiet_of_marker hneedle hmarker id (by decide : "VARREF_FREE" ∈ allKinds)
    List.mem_cons_self hfields htail
  rwa [String.empty_append, ← freeCall_eq] at hquiet

/-- **A needle stands in texts of its own form alone**: flag arrays in probes, closers in what ends
in a parenthesis, and definitions nowhere. -/
theorem Inserted.quiet (h : Inserted u exprs draws text) (hu : u.Spares needle)
    (hprobes : ∀ c ∈ flagCategories, needle = Probe.flagStem c → ∀ id, ⟨c, id⟩ ∉ draws)
    (hclosed : (∀ hook ∈ Hooks.all, needle ≠ Hooks.closerStem hook) ∨
      ∀ x ∈ draws, x.category ∉ closedCategories) : Quiet needle text := by
  cases h with
  | fixed known => exact quiet_fixed hneedle hmarker known
  | marked id known leads quoted =>
    have hend : Quiet needle "*/\n" := quiet_piece hneedle (by decide)
    rw [marked_eq]
    exact quiet_of_marker hneedle hmarker id (mem_allKinds_of_marker known).1 leads
      (fun f hf => (hu f (quoted f hf)).field) hend
  | @probed exprs c kind lead before behind fields args id known leads format quoted within
      evaluated =>
    obtain ⟨hkind, -, hc⟩ := mem_allKinds_of_probe known
    have hne : needle ≠ Probe.flagStem c := fun heq => hprobes c hc heq id List.mem_cons_self
    rw [probed_eq]
    exact quiet_of_marker hneedle hmarker id hkind leads (fun f hf => (hu f (quoted f hf)).field)
      (quiet_probe hneedle id hc hne hu within evaluated format)
  | @closing hook id known =>
    rcases hclosed with hclosers | hnone
    · exact ((quiet_closerStem known hneedle (hclosers hook known)).append
        (quiet_number hneedle id)).append (closes_paren hneedle hclosers).quiet
    · exact absurd (category_mem_closed known) (hnone _ List.mem_cons_self)
  | forwarded quoted => exact quiet_forwarding hneedle (hu _ quoted)
  | @moved name type id isInitialized quoted element innermost =>
    rcases hclosed with hclosers | hnone
    · have hhead := quiet_heapHead hneedle hmarker id isInitialized hu quoted element
      have hlast := (closes_paren hneedle hclosers).quiet_append (hu _ innermost).apart
      have hparts := hhead.append hlast
      simp only [String.append_assoc] at hparts
      rwa [heapCopy_eq]
    · exact absurd List.mem_cons_self (hnone _ List.mem_cons_self)
  | freed calls quoted =>
    refine quiet_join fun s hs => ?_
    obtain ⟨call, hcall, rfl⟩ := List.mem_map.mp hs
    obtain ⟨hname, helement⟩ := quoted call hcall
    exact quiet_freeCall hneedle hmarker call.1 hu hname helement

end

/-! ## How inserted texts start -/

/-- **What inserted texts start with.** -/
def openings : List Char := ['\x7b', '\n', '(', 'M', '/', ')', '#']

theorem startsAmong_lead (hlead : lead ∈ ["", "\n"]) : StartsAmong openings lead := by
  have hall : ∀ lead ∈ ["", "\n"], StartsAmong openings lead := by decide
  exact hall lead hlead

/-- A marker starts what it is in, but for a line break. -/
theorem startsAmong_marker (hlead : lead ∈ ["", "\n"]) :
    StartsAmong openings (lead ++ (markerStart ++ rest)) :=
  startsAmong_append (startsAmong_lead hlead) (startsAmong_of_start (by decide) (by decide))

theorem Inserted.startsAmong (h : Inserted u exprs draws text) : StartsAmong openings text := by
  cases h with
  | fixed known =>
    have hall : ∀ text ∈ fixedTexts, StartsAmong openings text := by decide
    exact hall text known
  | marked id known leads quoted =>
    rw [marked_eq]
    exact startsAmong_marker leads
  | probed id known leads format quoted within evaluated =>
    rw [probed_eq]
    exact startsAmong_marker leads
  | @closing hook id known =>
    have hstems : ∀ hook ∈ Hooks.all, StartsAmong openings (Hooks.closerStem hook) ∧
        (Hooks.closerStem hook).toList ≠ [] := by
      decide
    obtain ⟨hstem, hne⟩ := hstems hook known
    rw [String.append_assoc]
    exact startsAmong_of_start hstem hne
  | forwarded quoted =>
    rw [forwarding_eq]
    exact startsAmong_of_start (by decide) (by decide)
  | moved id isInitialized quoted element innermost =>
    rw [heapCopy_eq]
    exact startsAmong_marker (by decide)
  | freed calls quoted =>
    refine startsAmong_join fun s hs => ?_
    obtain ⟨call, -, rfl⟩ := List.mem_map.mp hs
    rw [freeCall_eq]
    exact startsAmong_of_start (by decide) (by decide)

/-- The lines of flags and of hooks start so as well. -/
theorem startsAmong_flagLine (isDefinition : Bool) (line : Category × Nat) :
    StartsAmong openings (if isDefinition then Probe.flagDefinition line.1 line.2
      else Probe.flagDeclaration line.1 line.2) := by
  split
  · rw [flagDefinition_eq]
    exact startsAmong_of_start (by decide) (by decide)
  · rw [flagDeclaration_eq]
    exact startsAmong_of_start (by decide) (by decide)

theorem startsAmong_hookLine (line : Hooks.Hook × Nat) :
    StartsAmong openings ("#define " ++ line.1.tag ++ toString line.2 ++ " \n") := by
  rw [String.append_assoc, String.append_assoc]
  exact startsAmong_of_start (by decide) (by decide)

theorem Heading.startsAmong (h : Heading ruleName text) : StartsAmong openings text := by
  cases h with
  | flags lines isDefinition known =>
    refine startsAmong_join fun s hs => ?_
    obtain ⟨line, -, rfl⟩ := List.mem_map.mp hs
    exact startsAmong_flagLine isDefinition line
  | hooks lines known =>
    refine startsAmong_join fun s hs => ?_
    obtain ⟨line, -, rfl⟩ := List.mem_map.mp hs
    exact startsAmong_hookLine line
  | helpers count known =>
    rw [String.append_assoc]
    exact startsAmong_of_start (by decide +kernel) (by decide +kernel)

end ProbeWeaver
