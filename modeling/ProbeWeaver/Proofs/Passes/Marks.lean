import ProbeWeaver.Proofs.Passes.Pieces
import ProbeWeaver.Proofs.Text.Numerals

/-!
# Proofs/Passes/Marks — the numbers that inserted text carries

A text carries a number in a marker or in the closer of a hook (`marks` reads them back).  Each form
of inserted text carries the numbers that it was made with, in that order, and no other
(`Inserted.marks`), and lines at the start of a file carry none (`Heading.marks`), as long as the
file's quotes hold no marker or closer of their own.
-/

namespace ProbeWeaver

open Text

variable {u : SourceUnit} {exprs : List Node} {draws : List Draw} {text kind q : String} {id : Nat}
  {fields : List String} {cs : List Char}

/-! ## Reading numbers back -/

/-- **A number that a text carries**, with the kind of the marker or the name of the hook. -/
structure Mark where
  label : String
  number : Nat
  deriving DecidableEq, Repr

namespace Mark

/-- The mark of a marker, read behind the start of one. -/
def ofMarker? (cs : List Char) : Option Mark :=
  match numbered? cs with
  | some (n, ':' :: rest) => some ⟨String.ofList (rest.takeWhile (· != ':')), n⟩
  | _ => none

/-- The mark of a hook, read behind the stem of its closer. -/
def ofCloser? (h : Hooks.Hook) (cs : List Char) : Option Mark :=
  match numbered? cs with
  | some (n, ')' :: _) => some ⟨h.tag, n⟩
  | _ => none

end Mark

/-- **The marks in a text**: those of markers, and those of hooks. -/
def marks (text : String) : List Mark :=
  (rests markerStart text).filterMap Mark.ofMarker? ++
    Hooks.all.flatMap fun h => (rests (Hooks.closerStem h) text).filterMap (Mark.ofCloser? h)

/-- The labels under which a category's numbers are written. -/
def Category.labels : Category → List String
  | .brace => ["BRACESTART"]
  | .varDecl => ["VARDECL"]
  | .funcEnter => ["FUNCTIONENTER"]
  | .inst => ["INSERTIONSITE"]
  | .array => ["VARREF_ARRAY"]
  | .ptr => ["VARREF_POINTER", "VARREF_ASSIGN"]
  | .mem => ["VARREF_MEMORY"]
  | .var => ["VARDECL"]
  | .ptrIndex => ["VARREF_POINTERINDEX"]
  | .int => ["VARREF_INTEGER"]
  | .init => ["VARREF_INIT"]
  | .mutArr => ["_MUTARR"]
  | .mutPtr => ["_MUTPTR"]
  | .intOpL => ["_INTOPL"]
  | .intOpR => ["_INTOPR"]
  | .heap => ["VARDECLHEAP"]
  | .free => ["VARREF_FREE"]

/-- **The mark carries the number**, under a label of its category. -/
structure Draw.CarriedBy (x : Draw) (mark : Mark) : Prop where
  number : mark.number = x.number
  label : mark.label ∈ x.category.labels

/-! ## Files without marks of their own -/

/-- **The file's quotes hold no marker and no closer**, nor the start of a marker that the colon
behind a field would go on with. -/
def SourceUnit.IsUnmarked (u : SourceUnit) : Prop :=
  ∀ q ∈ u.quotes, contains (q ++ ":") "/*I:" = false ∧
    ∀ h ∈ Hooks.all, contains q (Hooks.closerStem h) = false

instance (u : SourceUnit) : Decidable u.IsUnmarked :=
  inferInstanceAs (Decidable (∀ q ∈ u.quotes, _ ∧ ∀ h ∈ Hooks.all, _))

theorem markerStart_mem : markerStart ∈ needles := List.mem_cons_self

theorem closerStem_mem {h : Hooks.Hook} (hh : h ∈ Hooks.all) : Hooks.closerStem h ∈ needles :=
  List.mem_cons_of_mem _ (List.mem_append_left _ (List.mem_append_left _ (List.mem_map_of_mem hh)))

theorem defineStem_mem {h : Hooks.Hook} (hh : h ∈ Hooks.all) : Hooks.defineStem h ∈ needles :=
  List.mem_cons_of_mem _ (List.mem_append_right _ (List.mem_map_of_mem hh))

theorem markerStart_ne_defineStem : ∀ h ∈ Hooks.all, markerStart ≠ Hooks.defineStem h := by decide

theorem closerStem_ne_defineStem {h : Hooks.Hook} (hh : h ∈ Hooks.all) :
    ∀ g ∈ Hooks.all, Hooks.closerStem h ≠ Hooks.defineStem g := by
  have hall : ∀ h ∈ Hooks.all, ∀ g ∈ Hooks.all, Hooks.closerStem h ≠ Hooks.defineStem g := by
    decide
  exact hall h hh

theorem SourceUnit.IsUnmarked.spares_markerStart (hu : u.IsUnmarked) : u.Spares markerStart := by
  intro q hq
  have hprefix : "/*I:".toList <+: markerStart.toList := by decide
  have hquiet : Quiet markerStart (q ++ ":") :=
    (quiet_of_closed (c := ':') (by decide) (hu q hq).1).of_longer hprefix
  have hwhole : contains (q ++ ":") markerStart = false :=
    (contains_eq_false_iff (needle_ne_nil markerStart_mem)).mpr hquiet.rests_eq_nil
  have hq : contains q markerStart = false := by
    rw [contains, Bool.eq_false_iff] at hwhole ⊢
    intro hinfix
    refine hwhole ?_
    rw [String.toList_append]
    exact hasInfix_append_left _ hinfix
  exact ⟨hq, hquiet, quiet_defined markerStart_mem markerStart_ne_defineStem hq⟩

/-- A text without the stem of the closer spares it. -/
theorem Text.Spares.of_closerStem {h : Hooks.Hook} (hh : h ∈ Hooks.all)
    (hq : contains q (Hooks.closerStem h) = false) : Text.Spares (Hooks.closerStem h) q := by
  have hcolon : ∀ h ∈ Hooks.all, cutsOff (Hooks.closerStem h).toList ":".toList = true := by decide
  have hquiet : Quiet (Hooks.closerStem h) ":" := quiet_piece (closerStem_mem hh) (by decide)
  exact ⟨hq, (Closes.mk (hcolon h hh) hquiet).quiet_append hq,
    quiet_defined (closerStem_mem hh) (closerStem_ne_defineStem hh) hq⟩

theorem SourceUnit.IsUnmarked.spares_closerStem (hu : u.IsUnmarked) {h : Hooks.Hook}
    (hh : h ∈ Hooks.all) : u.Spares (Hooks.closerStem h) :=
  fun q hq => .of_closerStem hh ((hu q hq).2 h hh)

/-! ## Markers -/

theorem ofMarker?_markerBody (hkind : kind ∈ allKinds) (rest : String) :
    Mark.ofMarker? (markerBody id kind fields ++ rest).toList = some ⟨kind, id⟩ := by
  have hkinds : (allKinds.all fun k => k.toList.all (· != ':')) = true := by decide
  simp only [markerBody, String.append_assoc, String.toList_append]
  rw [Mark.ofMarker?, show ":".toList = [':'] from rfl, List.singleton_append,
    numbered?_toString id (by decide)]
  show some (Mark.mk (String.ofList _) id) = _
  rw [List.singleton_append, List.takeWhile_append_of_pos
      (List.all_eq_true.mp (List.all_eq_true.mp hkinds kind hkind)),
    List.takeWhile_cons_of_neg (by decide), List.append_nil, String.ofList_toList]

/-- **A marker is read back** wherever it stands, and what follows it after it. -/
theorem filterMap_ofMarker? (id : Nat) {lead : String} (rest : String) (hkind : kind ∈ allKinds)
    (hlead : Quiet markerStart lead) (hfields : ∀ f ∈ fields, Quiet markerStart (f ++ ":")) :
    (rests markerStart (lead ++ (markerStart ++ (markerBody id kind fields ++ rest)))).filterMap
      Mark.ofMarker? = ⟨kind, id⟩ :: (rests markerStart rest).filterMap Mark.ofMarker? := by
  have hbody := (setApart markerStart_mem).quiet_markerBody id hkind hfields
  rw [hlead.rests_append, rests_needle_append (needle_ne_nil markerStart_mem),
    hbody.rests_append, List.filterMap_cons_some (ofMarker?_markerBody hkind rest)]

/-- A text without closers has the marks of its markers. -/
theorem marks_of_markers (h : ∀ hook ∈ Hooks.all, rests (Hooks.closerStem hook) text = []) :
    marks text = (rests markerStart text).filterMap Mark.ofMarker? := by
  rw [marks, List.flatMap_eq_nil_iff.mpr, List.append_nil]
  intro hook hmem
  rw [h hook hmem]
  rfl

/-! ## Closers -/

section Closers

variable {hook : Hooks.Hook} (hhook : hook ∈ Hooks.all)
include hhook

theorem quiet_closerStem {needle : String} (hneedle : needle ∈ needles)
    (hne : needle ≠ Hooks.closerStem hook) : Quiet needle (Hooks.closerStem hook) := by
  have hall : ∀ n ∈ needles, ∀ hook ∈ Hooks.all, n ≠ Hooks.closerStem hook →
      clashes (bytes n) [] (bytes (Hooks.closerStem hook)) = true := by
    decide +kernel
  exact quiet_of_clashes (hall needle hneedle hook hhook hne)

/-- No closer starts in the start of a marker. -/
theorem quiet_markerStart_of_closer : Quiet (Hooks.closerStem hook) markerStart := by
  have hne : ∀ hook ∈ Hooks.all, Hooks.closerStem hook ≠ markerStart := by decide
  exact quiet_markerStart (closerStem_mem hhook) (hne hook hhook)

/-- A parenthesis at the end is no closer. -/
theorem rests_paren : rests (Hooks.closerStem hook) ")" = [] := by
  have hall : ∀ hook ∈ Hooks.all, rests (Hooks.closerStem hook) ")" = [] := by decide
  exact hall hook hhook

end Closers

theorem ofCloser?_number (hook : Hooks.Hook) (id : Nat) :
    Mark.ofCloser? hook (toString id ++ ")").toList = some ⟨hook.tag, id⟩ := by
  rw [String.toList_append, Mark.ofCloser?, show ")".toList = [')'] from rfl,
    numbered?_toString id (by decide)]
  rfl

/-- **The closer of a hook carries its number**, and nothing else. -/
theorem marks_closer {hook : Hooks.Hook} (hhook : hook ∈ Hooks.all) (id : Nat) :
    marks (Hooks.closerStem hook ++ toString id ++ ")") = [⟨hook.tag, id⟩] := by
  have hnumber {other : Hooks.Hook} (h : other ∈ Hooks.all) :
      rests (Hooks.closerStem other) (toString id ++ ")") = [] := by
    rw [(quiet_number (closerStem_mem h) id).rests_append]
    exact rests_paren h
  have hother {other : Hooks.Hook} (h : other ∈ Hooks.all)
      (hne : Hooks.closerStem other ≠ Hooks.closerStem hook) :
      (rests (Hooks.closerStem other) (Hooks.closerStem hook ++ (toString id ++ ")"))).filterMap
        (Mark.ofCloser? other) = [] := by
    rw [(quiet_closerStem hhook (closerStem_mem h) hne).rests_append, hnumber h]
    rfl
  have hself : (rests (Hooks.closerStem hook)
      (Hooks.closerStem hook ++ (toString id ++ ")"))).filterMap (Mark.ofCloser? hook) =
        [⟨hook.tag, id⟩] := by
    rw [rests_needle_append (needle_ne_nil (closerStem_mem hhook)), hnumber hhook,
      List.filterMap_cons_some (ofCloser?_number hook id)]
    rfl
  have hmarkers : rests markerStart (Hooks.closerStem hook ++ (toString id ++ ")")) = [] := by
    have hne : ∀ hook ∈ Hooks.all, markerStart ≠ Hooks.closerStem hook := by decide
    rw [(quiet_closerStem hhook markerStart_mem (hne hook hhook)).rests_append,
      (quiet_number markerStart_mem id).rests_append]
    decide
  rw [String.append_assoc, marks, hmarkers, List.filterMap_nil, List.nil_append, Hooks.all]
  simp only [List.flatMap_cons, List.flatMap_nil, List.append_nil]
  simp only [Hooks.all, List.mem_cons, List.not_mem_nil, or_false] at hhook
  rcases hhook with rfl | rfl | rfl | rfl
  all_goals
    rw [hself, hother (by decide) (by decide), hother (by decide) (by decide),
      hother (by decide) (by decide)]
    rfl

/-! ## Every form of inserted text -/

theorem mem_allKinds_of_marker {c : Category} (h : (c, kind) ∈ markerKinds) :
    kind ∈ allKinds ∧ kind ∈ c.labels := by
  have hall : ∀ p ∈ markerKinds, p.2 ∈ allKinds ∧ p.2 ∈ p.1.labels := by decide
  exact hall _ h

theorem mem_allKinds_of_probe {c : Category} (h : (c, kind) ∈ probeKinds) :
    kind ∈ allKinds ∧ kind ∈ c.labels ∧ c ∈ Tracing.flagCategories := by
  have hall : ∀ p ∈ probeKinds, p.2 ∈ allKinds ∧ p.2 ∈ p.1.labels ∧
      p.1 ∈ Tracing.flagCategories := by
    decide
  exact hall _ h

theorem quiet_lead {needle lead : String} (hneedle : needle ∈ needles)
    (hlead : lead ∈ ["", "\n"]) : Quiet needle lead := by
  have hall : ∀ lead ∈ ["", "\n"], lead ∈ quietPieces := by decide
  exact quiet_piece hneedle (hall lead hlead)

/-- A marker, then something with no marker in it, and no closer anywhere: one mark. -/
theorem carries_of_marker {c : Category} {lead rest : String} (hkind : kind ∈ allKinds)
    (hlabel : kind ∈ c.labels) (hu : u.IsUnmarked) (hlead : lead ∈ ["", "\n"])
    (hfields : ∀ f ∈ fields, ∀ needle ∈ needles, u.Spares needle → Quiet needle (f ++ ":"))
    (hrest : rests markerStart rest = [])
    (hclosers : ∀ hook ∈ Hooks.all, rests (Hooks.closerStem hook) rest = []) :
    List.Forall₂ Draw.CarriedBy [⟨c, id⟩]
      (marks (lead ++ (markerStart ++ (markerBody id kind fields ++ rest)))) := by
  rw [marks_of_markers, filterMap_ofMarker? id rest hkind (quiet_lead markerStart_mem hlead)
    (fun f hf => hfields f hf _ markerStart_mem hu.spares_markerStart), hrest]
  · exact .cons ⟨rfl, hlabel⟩ .nil
  · intro hook hhook
    have hstem := closerStem_mem hhook
    have hbody := (setApart hstem).quiet_markerBody id hkind fun f hf =>
      hfields f hf _ hstem (hu.spares_closerStem hhook)
    rw [(quiet_lead hstem hlead).rests_append, (quiet_markerStart_of_closer hhook).rests_append,
      hbody.rests_append]
    exact hclosers hook hhook

section Freed

variable {calls : List (Nat × String × CType)}
  (hcalls : ∀ call ∈ calls, call.2.1 ∈ u.quotes ∧ Relocation.elementSpelling call.2.2 ∈ u.quotes)
include hcalls

/-- What calls that free are put together from, in front of the calls behind them. -/
theorem filterMap_ofMarker?_freed (hu : u.Spares markerStart) : List.Forall₂ Draw.CarriedBy
    (calls.map fun call => ⟨.free, call.1⟩) ((rests markerStart (String.join (calls.map fun call =>
      Relocation.freeCall call.1 call.2.1 call.2.2))).filterMap Mark.ofMarker?) := by
  induction calls with
  | nil => exact .nil
  | cons call calls ih =>
    obtain ⟨hname, helement⟩ := hcalls call List.mem_cons_self
    have hfields : ∀ f ∈ [Relocation.elementSpelling call.2.2, call.2.1],
        Quiet markerStart (f ++ ":") := fun f hf => by
      simp only [List.mem_cons, List.not_mem_nil, or_false] at hf
      rcases hf with rfl | rfl
      · exact (hu _ helement).field
      · exact (hu _ hname).field
    have htail : Quiet markerStart (freeTail call.2.1 call.2.2.arrayRank) :=
      quiet_freeTail markerStart_mem (hu _ hname).apart
    have hlead : Quiet markerStart "" := quiet_piece markerStart_mem (by decide)
    have hread := filterMap_ofMarker? call.1 (freeTail call.2.1 call.2.2.arrayRank ++
      String.join (calls.map fun call => Relocation.freeCall call.1 call.2.1 call.2.2))
      (by decide : "VARREF_FREE" ∈ allKinds) hlead hfields
    rw [String.empty_append, htail.rests_append] at hread
    rw [List.map_cons, List.map_cons, String.join_cons, freeCall_eq, String.append_assoc,
      String.append_assoc, hread]
    have hlabel : "VARREF_FREE" ∈ Category.free.labels := List.mem_cons_self
    exact .cons ⟨rfl, hlabel⟩ (ih fun c hc => hcalls c (List.mem_cons_of_mem call hc))

/-- **Calls that free** carry the numbers of all arrays that they free. -/
theorem carries_freed (hu : u.IsUnmarked) : List.Forall₂ Draw.CarriedBy
    (calls.map fun call => ⟨.free, call.1⟩) (marks (String.join (calls.map fun call =>
      Relocation.freeCall call.1 call.2.1 call.2.2))) := by
  rw [marks_of_markers]
  · exact filterMap_ofMarker?_freed hcalls hu.spares_markerStart
  · intro hook hhook
    refine (quiet_join fun text htext => ?_).rests_eq_nil
    obtain ⟨call, hcall, rfl⟩ := List.mem_map.mp htext
    obtain ⟨hname, helement⟩ := hcalls call hcall
    have hspares := hu.spares_closerStem hhook
    have hstem := closerStem_mem hhook
    have hbody : Quiet (Hooks.closerStem hook) (markerBody call.1 "VARREF_FREE"
        [Relocation.elementSpelling call.2.2, call.2.1]) :=
      (setApart hstem).quiet_markerBody call.1 (by decide) fun f hf => by
        simp only [List.mem_cons, List.not_mem_nil, or_false] at hf
        rcases hf with rfl | rfl
        · exact (hspares _ helement).field
        · exact (hspares _ hname).field
    rw [freeCall_eq]
    exact (quiet_markerStart_of_closer hhook).append
      (hbody.append (quiet_freeTail hstem (hspares _ hname).apart))

end Freed

/-- **Every inserted text carries the numbers that it was made with**, one mark for each in order,
and no other. -/
theorem Inserted.carries (h : Inserted u exprs draws text) (hu : u.IsUnmarked) :
    List.Forall₂ Draw.CarriedBy draws (marks text) := by
  have hquotes {f : String} (hf : f ∈ u.quotes) :
      ∀ needle ∈ needles, u.Spares needle → Quiet needle (f ++ ":") := fun _ _ hspares =>
    (hspares f hf).field
  cases h with
  | fixed known =>
    have hall : ∀ text ∈ fixedTexts, marks text = [] := by decide
    rw [hall _ known]
    exact .nil
  | marked id known leads quoted =>
    obtain ⟨hkind, hlabel⟩ := mem_allKinds_of_marker known
    rw [marked_eq]
    refine carries_of_marker hkind hlabel hu leads (fun f hf => hquotes (quoted f hf)) (by decide)
      fun hook hhook => ?_
    have hend : Quiet (Hooks.closerStem hook) "*/\n" :=
      quiet_piece (closerStem_mem hhook) (by decide)
    exact hend.rests_eq_nil
  | @probed exprs c kind lead before behind fields args id known leads format quoted within
      evaluated =>
    obtain ⟨hkind, hlabel, hflag⟩ := mem_allKinds_of_probe known
    have hrest {needle : String} (hneedle : needle ∈ needles) (hspares : u.Spares needle)
        (hne : needle ≠ Probe.flagStem c) := (quiet_probe hneedle id hflag hne hspares within
      evaluated format).rests_eq_nil
    rw [probed_eq]
    refine carries_of_marker hkind hlabel hu leads (fun f hf => hquotes (quoted f hf))
      (hrest markerStart_mem hu.spares_markerStart ?_) fun hook hhook =>
        hrest (closerStem_mem hhook) (hu.spares_closerStem hhook) ?_
    · have hne : ∀ c ∈ Tracing.flagCategories, markerStart ≠ Probe.flagStem c := by decide
      exact hne c hflag
    · have hne : ∀ hook ∈ Hooks.all, ∀ c ∈ Tracing.flagCategories,
          Hooks.closerStem hook ≠ Probe.flagStem c := by
        decide
      exact hne hook hhook c hflag
  | @closing hook id known =>
    rw [marks_closer known]
    have hall : ∀ hook ∈ Hooks.all, hook.tag ∈ hook.category.labels := by decide
    exact .cons ⟨rfl, hall _ known⟩ .nil
  | @forwarded name quoted =>
    have hname {needle : String} (hneedle : needle ∈ needles) (hspares : u.Spares needle) :
        rests needle (Relocation.forwarding name) = [] :=
      (quiet_forwarding hneedle (hspares _ quoted)).rests_eq_nil
    rw [marks_of_markers fun hook hhook =>
      hname (closerStem_mem hhook) (hu.spares_closerStem hhook),
      hname markerStart_mem hu.spares_markerStart]
    exact .nil
  | @moved name type id isInitialized quoted element innermost =>
    have hrest {needle : String} (hneedle : needle ∈ needles) (hspares : u.Spares needle) :
        rests needle (heapTail name type.arrayRank isInitialized ++
          (type.innermost.unqualified.render ++ ")")) = [] := by
      rw [(quiet_heapTail hneedle (hspares _ quoted).apart).rests_append]
      exact rests_append_paren hneedle (hspares _ innermost).apart
    rw [heapCopy_eq]
    refine carries_of_marker (by decide) (by decide) hu (by decide) (fun f hf => ?_)
      (hrest markerStart_mem hu.spares_markerStart) fun hook hhook =>
        hrest (closerStem_mem hhook) (hu.spares_closerStem hhook)
    simp only [List.mem_cons, List.not_mem_nil, or_false] at hf
    rcases hf with rfl | rfl | rfl
    · exact hquotes element
    · exact hquotes quoted
    · exact fun needle hneedle _ => quiet_numberField hneedle _
  | freed calls quoted => exact carries_freed quoted hu

/-- **Lines at the start of a file carry no number.** -/
theorem Heading.marks_eq_nil {ruleName : String} (h : Heading ruleName text) :
    marks text = [] := by
  have hmarker : ∀ c ∈ Tracing.flagCategories, markerStart ≠ Probe.flagStem c := by decide
  have hcloser : ∀ hook ∈ Hooks.all, ∀ c ∈ Tracing.flagCategories,
      Hooks.closerStem hook ≠ Probe.flagStem c := by
    decide
  rw [marks_of_markers fun hook hhook =>
    (h.quiet (closerStem_mem hhook) (fun _ => hcloser hook hhook) fun _ =>
      closerStem_ne_defineStem hhook).rests_eq_nil,
    (h.quiet markerStart_mem (fun _ => hmarker) fun _ => markerStart_ne_defineStem).rests_eq_nil]
  rfl

end ProbeWeaver
