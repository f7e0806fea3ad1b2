import ProbeWeaver.Proofs.Passes.Hygiene
import ProbeWeaver.Proofs.Run.Relocations

/-!
# Proofs/Run/Forwards — what stands behind the declarations of renamed arrays

Behind the declaration of a renamed array its old name is declared again as a heap copy, or
forwarded to the shadow.  In the output this text stands ahead of what comes behind the declaration
(`SourceUnit.StandsAhead`), and of nothing before.

* `Pipeline.exists_forwarded_of_perform` — an occurrence of the name has the text ahead of it,
  unless the declaration itself holds the occurrence.
* `Pipeline.exists_last_of_perform` — a heap copy has no forwarding of its name ahead of it, if
  forwarded arrays are declared behind the relocated ones of their names.
-/

namespace ProbeWeaver

open Text
open Node (PlaceOf)

variable {t : Tree} {u : SourceUnit} {e : Edit} {edits : List Edit} {file : FileSummary}
  {decl n i : Node} {d : Declarator} {o : Nat} {x y : String}

/-! ## The order of the output -/

namespace SourceUnit

/-- **The edit stands ahead** of the output from an offset on: the text of the edit comes where the
edit is made, and then something up to there. -/
def StandsAhead (u : SourceUnit) (edits : List Edit) (output : String) (e : Edit) (o : Nat)
    (y : String) : Prop :=
  ∃ before after between, textAt edits e.offset = before ++ (e.text ++ after) ∧
    output = u.outputTo edits e.offset before ++ (e.text ++ (between ++ u.outputFrom edits o y))

namespace ComesOut

/-- **An edit made before an offset** stands ahead of the output from there on. -/
theorem standsAhead_of_lt (h : u.ComesOut edits file) (he : e ∈ edits)
    (hb : IsBoundary u.source e.offset) (ho : IsBoundary u.source o) (hlt : e.offset < o)
    (hcut : textAt edits o = x ++ y) : u.StandsAhead edits file.output e o y := by
  obtain ⟨before, after, htext⟩ := exists_textAt_eq he
  have hput : Function.update (textAt edits) o x e.offset = before ++ (e.text ++ after) := by
    rw [Function.update_of_ne (Nat.ne_of_lt hlt), htext]
  have hfront : u.outputTo edits e.offset before =
      weave (Function.update (Function.update (textAt edits) o x) e.offset before) u.source 0
        e.offset := by
    refine weave_congr (isBoundary_zero u.source) hb (Nat.zero_le _) fun a _ ha => ?_
    rw [Function.update_comm (Nat.ne_of_gt hlt),
      Function.update_of_ne (Nat.ne_of_lt (Nat.lt_of_le_of_lt ha hlt))]
  refine ⟨before, after, weave (Function.update (Function.update (textAt edits) o x) e.offset after)
    u.source e.offset o, htext, ?_⟩
  rw [h.output_eq ho hcut, outputTo, weave_at (isBoundary_zero u.source) hb ho (Nat.zero_le _)
    (Nat.le_of_lt hlt) hput, ← hfront, String.append_assoc, String.append_assoc]

/-- An edit made at an offset stands ahead of the text there. -/
theorem standsAhead_of_le (h : u.ComesOut edits file) (he : e ∈ edits)
    (hb : IsBoundary u.source e.offset) (ho : IsBoundary u.source o) (hle : e.offset ≤ o) :
    u.StandsAhead edits file.output e o "" := by
  rcases Nat.eq_or_lt_of_le hle with rfl | hlt
  · obtain ⟨before, after, htext⟩ := exists_textAt_eq he
    refine ⟨before, after, after, htext, ?_⟩
    have hrest : u.outputFrom edits e.offset (e.text ++ after) =
        e.text ++ (after ++ u.outputFrom edits e.offset "") := by
      have hempty : e.text ++ after = e.text ++ (after ++ "") := by rw [String.append_empty]
      rw [outputFrom, hempty, weave_update_append hb (isBoundary_size _) hb.le_size,
        weave_update_append hb (isBoundary_size _) hb.le_size, outputFrom]
    rw [h.output_eq hb htext, hrest]
  · exact h.standsAhead_of_lt he hb ho hlt (String.append_empty ..).symm

/-- **An edit made behind an offset** does not. -/
theorem not_standsAhead_of_lt (h : u.ComesOut edits file) (hne : e.text ≠ "")
    (hb : IsBoundary u.source e.offset) (ho : IsBoundary u.source o) (hlt : o < e.offset)
    (hcut : textAt edits o = x ++ y) : ¬ u.StandsAhead edits file.output e o y := by
  rintro ⟨before, after, between, -, houtput⟩
  have hfront : u.outputTo edits e.offset before = u.outputTo edits o x ++
      weave (Function.update (Function.update (textAt edits) e.offset before) o y) u.source o
        e.offset := by
    have hput : Function.update (textAt edits) e.offset before o = x ++ y := by
      rw [Function.update_of_ne (Nat.ne_of_lt hlt), hcut]
    rw [outputTo, weave_cut (isBoundary_zero u.source) ho hb (Nat.zero_le o) (Nat.le_of_lt hlt)
      hput, outputTo]
    congr 1
    refine weave_congr (isBoundary_zero u.source) ho (Nat.zero_le o) fun a _ ha => ?_
    rw [Function.update_comm (Nat.ne_of_gt hlt),
      Function.update_of_ne (Nat.ne_of_lt (Nat.lt_of_le_of_lt ha hlt))]
  rw [h.output_eq ho hcut, hfront] at houtput
  have hsize := congrArg String.utf8ByteSize houtput
  simp only [String.utf8ByteSize_append] at hsize
  have hpos : e.text.utf8ByteSize ≠ 0 := fun hzero => hne (String.utf8ByteSize_eq_zero_iff.mp hzero)
  omega

end ComesOut

end SourceUnit

/-! ## Occurrences of a name -/

namespace Declarator

/-- The declarator without its initializer. -/
def bare (d : Declarator) : Node :=
  if d.node.kind = .initDeclarator then (d.node.field? .declarator).getD d.node else d.node

/-- With an initializer, the name is in what stands before it. -/
theorem exists_peel_of_initDeclarator {source : String} {base : CType} {name : Node}
    (hkind : n.kind = .initDeclarator) (h : (peel source n base).1 = some name) :
    ∃ inner, n.field? .declarator = some inner ∧ (peel source inner base).1 = some name := by
  rw [peel, hkind] at h
  dsimp only at h
  split at h
  · next inner hfield _ => exact ⟨inner, hfield, h⟩
  · contradiction

/-- A name is in what declares it. -/
theorem isWithin_of_peel {source : String} {base : CType} {name : Node}
    (h : (peel source n base).1 = some name) : name.isWithin n = true := by
  rcases mem_ancestors_peel h with rfl | hup
  · exact Node.isWithin_self name
  · exact Node.isWithin_of_mem_ancestors hup

/-- **A name is in its declarator**, before any initializer. -/
theorem name_isWithin_bare {source : String} (hd : d ∈ declarators source decl) :
    d.name.isWithin d.bare = true := by
  obtain ⟨-, base, hpeel⟩ := exists_peel_of_mem_declarators hd
  rw [bare]
  split
  · next hkind =>
    obtain ⟨inner, hfield, hpeel⟩ := exists_peel_of_initDeclarator hkind hpeel
    rw [hfield]
    exact isWithin_of_peel hpeel
  · exact isWithin_of_peel hpeel

theorem placeOf_bare {source : String} (hd : d ∈ declarators source decl) (hdecl : decl.PlaceOf t) :
    d.bare.PlaceOf t := by
  have hnode := hdecl.of_mem_fillers (exists_peel_of_mem_declarators hd).1
  rw [bare]
  split
  · cases hfield : d.node.field? .declarator with
    | none => exact hnode
    | some inner => exact hnode.of_field? hfield
  · exact hnode

end Declarator

namespace Relocation

/-- **An occurrence of the name** of an array behind its declarator.  Those that are bound to the
array are among them: it is in scope from the end of its declarator on. -/
structure Mentions (u : SourceUnit) (d : Declarator) (i : Node) : Prop where
  place : i ∈ u.root.walk
  kind : i.kind = .identifier
  spelled : u.text i ≠ ""
  name : u.text i = u.text d.name
  behind : d.bare.stop ≤ i.start

theorem start_lt_stop (ht : t.isLaidOut = true) (hn : n.PlaceOf t) (h : u.text n ≠ "") :
    n.start < n.stop := by
  refine Nat.lt_of_le_of_ne (hn.start_le_stop ht) fun heq => h ?_
  rw [SourceUnit.text, Node.text, heq, slice_self]

/-- **An occurrence in the declaration** is one before its end. -/
theorem Mentions.isWithin_iff (hi : Mentions u d i) (hd : Renamed u d decl) (hu : u.root = .root t)
    (ht : t.isLaidOut = true) : i.isWithin decl = true ↔ i.start < decl.stop := by
  obtain ⟨hdecl, -⟩ := hd.placeOf hu
  have hplace : i.PlaceOf t := (Node.placeOf_root t).of_mem_walk (hu ▸ hi.place)
  have hname := Declarator.placeOf_name hdecl hd.declares
  obtain ⟨-, hstop⟩ := hname.span_isWithin ht (Declarator.placeOf_bare hd.declares hdecl)
    (Declarator.name_isWithin_bare hd.declares)
  obtain ⟨hstart, -⟩ := hname.span_isWithin ht hdecl
    (Node.isWithin_of_mem_ancestors (Declarator.mem_ancestors_name hd.declares))
  have hspelled := start_lt_stop ht hplace hi.spelled
  have hnamed := start_lt_stop ht hname (hi.name ▸ hi.spelled)
  have hbehind := hi.behind
  constructor
  · intro hwithin
    exact Nat.lt_of_lt_of_le hspelled (hplace.span_isWithin ht hdecl hwithin).2
  · intro hlt
    rcases hplace.within_or_apart ht hdecl with h | h | h | h
    · exact h
    · have := (hdecl.span_isWithin ht hplace h).1
      omega
    · omega
    · omega

section Boundaries

variable {files : List SourceFile} (hfiles : ∀ file ∈ files, file.SpansFit)
  (hunit : some u ∈ files.map (·.unit?))
include hfiles hunit

theorem Renamed.isBoundary_stop (hd : Renamed u d decl) : IsBoundary u.source decl.stop := by
  obtain ⟨t, hu⟩ := isRooted_units files u hunit
  refine (isBoundary_units hfiles hunit ?_).2
  rw [hu]
  exact (hd.placeOf hu).1

theorem Mentions.isBoundary_start (hi : Mentions u d i) : IsBoundary u.source i.start := by
  obtain ⟨t, hu⟩ := isRooted_units files u hunit
  refine (isBoundary_units hfiles hunit ?_).1
  rw [hu]
  exact (Node.placeOf_root t).of_mem_walk (hu ▸ hi.place)

end Boundaries

/-- **What is put behind the declaration** of a renamed array. -/
def redeclaring (u : SourceUnit) (d : Declarator) (decl : Node) (number? : Option Nat) : Edit :=
  ⟨decl.stop, 0, redeclared u d number?⟩

theorem redeclaring_text_ne (u : SourceUnit) (d : Declarator) (decl : Node) (number? : Option Nat) :
    (redeclaring u d decl number?).text ≠ "" := by
  refine fun h => absurd (String.utf8ByteSize_eq_zero_iff.mpr h) ?_
  have hbreak : "\n".utf8ByteSize = 1 := by decide
  have hdefine : "\n#define ".utf8ByteSize = 9 := by decide
  cases number? with
  | none =>
    rw [redeclaring, redeclared, forwarding]
    simp only [String.utf8ByteSize_append]
    omega
  | some id =>
    rw [redeclaring, redeclared, heapCopy_eq]
    simp only [String.utf8ByteSize_append]
    omega

theorem redeclaring_mem {works : List Work} {number? : Option Nat} (pre post : List Edit)
    (h : Work.move d decl number? ∈ works) :
    redeclaring u d decl number? ∈ pre ++ (works.flatMap (Work.edits u) ++ post) := by
  refine List.mem_append_right _ (List.mem_append_left _ (List.mem_flatMap.mpr ⟨_, h, ?_⟩))
  exact List.mem_cons_of_mem _ (List.mem_singleton_self _)

/-- **A heap copy behind a forwarding**: the output has the forwarding ahead of the copy. -/
def Redeclares (u : SourceUnit) (edits : List Edit) (output : String) (forward copy : Edit) :
    Prop :=
  ∃ before after, textAt edits copy.offset = before ++ (copy.text ++ after) ∧
    u.StandsAhead edits output forward copy.offset (copy.text ++ after)

/-- Such an output reads so. -/
theorem Redeclares.exists_output_eq {output : String} {forward copy : Edit}
    (h : Redeclares u edits output forward copy) (hcopy : IsBoundary u.source copy.offset) :
    ∃ before between after, output =
      before ++ (forward.text ++ (between ++ (copy.text ++ after))) := by
  obtain ⟨before, after, -, front, back, between, -, houtput⟩ := h
  refine ⟨u.outputTo edits forward.offset front, between, u.outputFrom edits copy.offset after, ?_⟩
  rw [houtput, SourceUnit.outputFrom, weave_update_append hcopy (isBoundary_size _) hcopy.le_size,
    SourceUnit.outputFrom]

/-- **Forwarded arrays come last**: each is declared behind the relocated ones of its name. -/
def ForwardsLast (u : SourceUnit) (lottery : Lottery) : Prop :=
  ∀ d decl d' decl', Renamed u d decl → Renamed u d' decl' → u.text d.name = u.text d'.name →
    isRelocated u lottery d.node d.type = false → isRelocated u lottery d'.node d'.type = true →
      decl'.stop < decl.stop

end Relocation

namespace Pipeline

open Relocation

/-! ## Occurrences -/

/-- **Occurrences are forwarded** unless they are in the declaration.  Whatever the configuration,
as long as it lists the stack-to-heap pass once, and whatever the files, as long as the parser's
spans fit the texts: the run succeeds, and in each laid out file every renamed array has its heap
copy or its forwarding ahead of an occurrence of its name exactly when its declaration does not hold
the occurrence. -/
theorem exists_forwarded_of_perform (config : RunSettings)
    (honce : config.passes.count .stackToHeap = 1) (validateOutput dryRun : Bool)
    (files : List SourceFile) (hfiles : ∀ file ∈ files, file.SpansFit) :
    ∃ summary, ((build config.selectedPasses validateOutput dryRun).perform files).1 =
        .ok summary ∧
      ∀ (place : Nat) (u : SourceUnit), (files.map (·.unit?))[place]? = some (some u) →
        u.root.tree.isLaidOut = true →
          ∃ (file : FileSummary) (works : List Work) (pre post edits : List Edit),
            edits = pre ++ (works.flatMap (Work.edits u) ++ post) ∧
              summary.files[place]? = some file ∧ u.ComesOut edits file ∧
                Account config.relocation u works ∧ (∀ e ∈ pre ++ post, IsForeign u e) ∧
                  ∀ d decl number?, Work.move d decl number? ∈ works → ∀ i, Mentions u d i →
                    (u.StandsAhead edits file.output (redeclaring u d decl number?) i.start "" ↔
                      i.isWithin decl = false) := by
  obtain ⟨summary, hrun, hout⟩ := exists_works config honce validateOutput dryRun files hfiles
  refine ⟨summary, hrun, fun place u hunit hlaid => ?_⟩
  obtain ⟨file, works, pre, post, hfile, hcomes, haccount, hforeign⟩ := hout place u hunit
  obtain ⟨t, hu, ht⟩ := exists_root_of_isLaidOut hunit hlaid
  refine ⟨file, works, pre, post, _, rfl, hfile, hcomes, haccount, hforeign,
    fun d decl number? hmove i hi => ?_⟩
  have hd : Renamed u d decl := (haccount.due _ hmove).1
  have hdecl := hd.isBoundary_stop hfiles (List.mem_of_getElem? hunit)
  have hstart := hi.isBoundary_start hfiles (List.mem_of_getElem? hunit)
  rw [Bool.eq_false_iff, Ne, hi.isWithin_iff hd hu ht]
  constructor
  · intro hahead hlt
    exact hcomes.not_standsAhead_of_lt (redeclaring_text_ne u d decl number?) hdecl hstart hlt
      (String.append_empty ..).symm hahead
  · intro hnot
    exact hcomes.standsAhead_of_le (redeclaring_mem pre post hmove) hdecl hstart
      (Nat.le_of_not_lt hnot)

/-- An array whose initializer takes the size of its name. -/
def sizedText : String := "void f(int x) \x7b int a[1] = \x7bsizeof(a)\x7d; \x7d\n"

/-- The tree of the array in its function. -/
def sizedTree : Tree :=
  .node .sourceUnit none ⟨0, 42⟩ false
    [.node .functionDefinition none ⟨0, 41⟩ false
       [.node (.other "primitive_type") (some .type) ⟨0, 4⟩ false [],
        .node .functionDeclarator (some .declarator) ⟨5, 13⟩ false
          [.node .identifier (some .declarator) ⟨5, 6⟩ false [],
           .node (.other "parameter_list") (some .parameters) ⟨6, 13⟩ false
             [.node (.token "(") none ⟨6, 7⟩ false [],
              .node .parameterDeclaration none ⟨7, 12⟩ false
                [.node (.other "primitive_type") (some .type) ⟨7, 10⟩ false [],
                 .node .identifier (some .declarator) ⟨11, 12⟩ false []],
              .node (.token ")") none ⟨12, 13⟩ false []]],
        .node .compoundStatement (some .body) ⟨14, 41⟩ false
          [.node (.token "\x7b") none ⟨14, 15⟩ false [],
           .node .declaration none ⟨16, 39⟩ false
             [.node (.other "primitive_type") (some .type) ⟨16, 19⟩ false [],
              .node .initDeclarator (some .declarator) ⟨20, 38⟩ false
                [.node .arrayDeclarator (some .declarator) ⟨20, 24⟩ false
                   [.node .identifier (some .declarator) ⟨20, 21⟩ false [],
                    .node (.token "[") none ⟨21, 22⟩ false [],
                    .node .numberLiteral (some .size) ⟨22, 23⟩ false [],
                    .node (.token "]") none ⟨23, 24⟩ false []],
                 .node (.token "=") none ⟨25, 26⟩ false [],
                 .node .initializerList (some .value) ⟨27, 38⟩ false
                   [.node (.token "\x7b") none ⟨27, 28⟩ false [],
                    .node .sizeofExpression none ⟨28, 37⟩ false
                      [.node (.token "sizeof") none ⟨28, 34⟩ false [],
                       .node .parenthesizedExpression (some .value) ⟨34, 37⟩ false
                         [.node (.token "(") none ⟨34, 35⟩ false [],
                          .node .identifier none ⟨35, 36⟩ false [],
                          .node (.token ")") none ⟨36, 37⟩ false []]],
                    .node (.token "\x7d") none ⟨37, 38⟩ false []]],
              .node (.token ";") none ⟨38, 39⟩ false []],
           .node (.token "\x7d") none ⟨40, 41⟩ false []]]]

/-- The function as a file. -/
def sizedFile : SourceFile := ⟨"t.c", .ok sizedText, fun _ => sizedTree⟩

/-- The function as a unit. -/
def sizedUnit : SourceUnit :=
  ⟨"t.c", sizedText, .root sizedTree, NameTable.build sizedText (.root sizedTree)⟩

theorem spansFit_sized : ∀ file ∈ [sizedFile], file.SpansFit :=
  SourceFile.spansFit_singleton (by decide)

/-- The array whose initializer takes its size. -/
theorem exists_forwarded_of_sized :
    ∃ summary, ((build (RunSettings.selectedPasses { passes := [.stackToHeap] }) false
        true).perform [sizedFile]).1 = .ok summary ∧
      ∃ (file : FileSummary) (works : List Work) (pre post edits : List Edit),
        edits = pre ++ (works.flatMap (Work.edits sizedUnit) ++ post) ∧
          summary.files[0]? = some file ∧ sizedUnit.ComesOut edits file ∧
            Account {} sizedUnit works ∧ (∀ e ∈ pre ++ post, IsForeign sizedUnit e) ∧
              ∀ d decl number?, Work.move d decl number? ∈ works → ∀ i, Mentions sizedUnit d i →
                (sizedUnit.StandsAhead edits file.output (redeclaring sizedUnit d decl number?)
                  i.start "" ↔ i.isWithin decl = false) := by
  obtain ⟨summary, hrun, hout⟩ := exists_forwarded_of_perform { passes := [.stackToHeap] } rfl false
    true [sizedFile] spansFit_sized
  exact ⟨summary, hrun, hout 0 sizedUnit rfl (by decide)⟩

theorem exists_mention_of_sized : ∃ d decl i, Renamed sizedUnit d decl ∧ Mentions sizedUnit d i ∧
    i.isWithin decl = true ∧ i.start < decl.stop := by
  have hfound : ∃ decl ∈ sizedUnit.root.walk, decl.kind = .declaration ∧
      ∃ d ∈ sizedUnit.declarators decl, (isEligible sizedUnit d.node = true ∧
        d.node.isSpelledInFile = true ∧ sizedUnit.withinMain d.node = false) ∧
          ∃ i ∈ sizedUnit.root.walk, (i.kind = .identifier ∧ sizedUnit.text i ≠ "" ∧
            sizedUnit.text i = sizedUnit.text d.name ∧ d.bare.stop ≤ i.start) ∧
              i.isWithin decl = true ∧ i.start < decl.stop := by
    decide +kernel
  obtain ⟨decl, hdecl, hkind, d, hd, ⟨heligible, hspelled, houtside⟩, i, hi,
    ⟨hidentifier, hne, hname, hbehind⟩, hwithin⟩ := hfound
  exact ⟨d, decl, i, ⟨hdecl, hkind, hd, heligible, hspelled, houtside⟩,
    ⟨hi, hidentifier, hne, hname, hbehind⟩, hwithin⟩

set_option maxRecDepth 10000 in
/-- **An occurrence that is not forwarded**: the initializer of the shadow takes the size of the old
name, which gets its meaning behind it. -/
theorem exists_unforwarded :
    ∃ summary, ((build (RunSettings.selectedPasses { passes := [.stackToHeap] }) false
        true).perform [sizedFile]).1 = .ok summary ∧
      (summary.files.map (·.output)) = [header ++ initArray1 ++
        "\nvoid f(int x) \x7b int MUT_a[1] = \x7bsizeof(a)\x7d;" ++
          "\n/*I:ID0:VARDECLHEAP:int:a:1:*/\ninit_arr_1(a, MUT_a, int) \x7d\n"] ∧
        ∃ (file : FileSummary) (works : List Work) (pre post edits : List Edit),
          edits = pre ++ (works.flatMap (Work.edits sizedUnit) ++ post) ∧
            summary.files[0]? = some file ∧ sizedUnit.ComesOut edits file ∧
              ∃ d decl number? i, Work.move d decl number? ∈ works ∧ Mentions sizedUnit d i ∧
                ¬ sizedUnit.StandsAhead edits file.output (redeclaring sizedUnit d decl number?)
                  i.start "" := by
  obtain ⟨summary, hrun, hout⟩ := exists_works { passes := [.stackToHeap] } rfl false true
    [sizedFile] spansFit_sized
  have houtput : ((build (RunSettings.selectedPasses { passes := [.stackToHeap] }) false
      true).perform [sizedFile]).1.toOption.map (fun summary => summary.files.map (·.output)) =
        some [header ++ initArray1 ++
          "\nvoid f(int x) \x7b int MUT_a[1] = \x7bsizeof(a)\x7d;" ++
            "\n/*I:ID0:VARDECLHEAP:int:a:1:*/\ninit_arr_1(a, MUT_a, int) \x7d\n"] := by
    decide +kernel
  rw [hrun] at houtput
  obtain ⟨file, works, pre, post, hfile, hcomes, haccount, -⟩ := hout 0 sizedUnit rfl
  obtain ⟨d, decl, i, hd, hi, -, hlt⟩ := exists_mention_of_sized
  obtain ⟨number?, hmove⟩ := haccount.moves d decl hd
  have hunit : some sizedUnit ∈ [sizedFile].map (·.unit?) := List.mem_singleton_self _
  refine ⟨summary, hrun, Option.some.inj houtput, file, works, pre, post, _, rfl, hfile, hcomes, d,
    decl, number?, i, hmove, hi, ?_⟩
  exact hcomes.not_standsAhead_of_lt (redeclaring_text_ne sizedUnit d decl number?)
    (hd.isBoundary_stop spansFit_sized hunit) (hi.isBoundary_start spansFit_sized hunit) hlt
    (String.append_empty ..).symm

/-! ## Heap copies behind forwardings -/

/-- **No heap copy behind a forwarding of its name**, if forwarded arrays come last.  Whatever the
configuration, as long as it lists the stack-to-heap pass once, and whatever the files, as long as
the parser's spans fit the texts: the run succeeds, and in each file whose forwarded arrays are
declared behind the relocated ones of their names no heap copy has a forwarding of its name ahead of
it; a copy whose declaration ends behind that of a forwarded array of its name has. -/
theorem exists_last_of_perform (config : RunSettings)
    (honce : config.passes.count .stackToHeap = 1) (validateOutput dryRun : Bool)
    (files : List SourceFile) (hfiles : ∀ file ∈ files, file.SpansFit) :
    ∃ summary, ((build config.selectedPasses validateOutput dryRun).perform files).1 =
        .ok summary ∧
      ∀ (place : Nat) (u : SourceUnit), (files.map (·.unit?))[place]? = some (some u) →
        ∃ (file : FileSummary) (works : List Work) (pre post edits : List Edit),
          edits = pre ++ (works.flatMap (Work.edits u) ++ post) ∧
            summary.files[place]? = some file ∧ u.ComesOut edits file ∧
              Account config.relocation u works ∧ (∀ e ∈ pre ++ post, IsForeign u e) ∧
                ∀ d decl d' decl' id, Work.move d decl none ∈ works →
                  Work.move d' decl' (some id) ∈ works → u.text d.name = u.text d'.name →
                    (ForwardsLast u (.of config.relocation) →
                      ¬ Redeclares u edits file.output (redeclaring u d decl none)
                        (redeclaring u d' decl' (some id))) ∧
                    (decl.stop < decl'.stop →
                      Redeclares u edits file.output (redeclaring u d decl none)
                        (redeclaring u d' decl' (some id))) := by
  obtain ⟨summary, hrun, hout⟩ := exists_works config honce validateOutput dryRun files hfiles
  refine ⟨summary, hrun, fun place u hunit => ?_⟩
  obtain ⟨file, works, pre, post, hfile, hcomes, haccount, hforeign⟩ := hout place u hunit
  refine ⟨file, works, pre, post, _, rfl, hfile, hcomes, haccount, hforeign,
    fun d decl d' decl' id hforward hcopy hname => ?_⟩
  obtain ⟨hd, hstays⟩ := haccount.due _ hforward
  obtain ⟨hd', hmoves⟩ := haccount.due _ hcopy
  have hstop := hd.isBoundary_stop hfiles (List.mem_of_getElem? hunit)
  have hstop' := hd'.isBoundary_stop hfiles (List.mem_of_getElem? hunit)
  constructor
  · rintro hlast ⟨before, after, hcut, hahead⟩
    exact hcomes.not_standsAhead_of_lt (redeclaring_text_ne u d decl none) hstop hstop'
      (hlast d decl d' decl' hd hd' hname hstays.symm hmoves.symm) hcut hahead
  · intro hlt
    obtain ⟨before, after, hcut⟩ := exists_textAt_eq (redeclaring_mem pre post hcopy)
    exact ⟨before, after, hcut, hcomes.standsAhead_of_lt (redeclaring_mem pre post hforward)
      hstop hstop' hlt hcut⟩

/-- An array of records in a function, and an array of numbers with its name in the next one. -/
def recordsText : String :=
  "struct P \x7b int x; \x7d;\nvoid f() \x7b struct P a[2]; \x7d\nvoid g() \x7b int a[3]; \x7d\n"

/-- The tree of the arrays in their functions. -/
def recordsTree : Tree :=
  .node .sourceUnit none ⟨0, 72⟩ false
    [.node .structSpecifier none ⟨0, 19⟩ false
       [.node (.token "struct") none ⟨0, 6⟩ false [],
        .node .typeIdentifier (some .name) ⟨7, 8⟩ false [],
        .node (.other "field_declaration_list") (some .body) ⟨9, 19⟩ false
          [.node (.token "\x7b") none ⟨9, 10⟩ false [],
           .node .fieldDeclaration none ⟨11, 17⟩ false
             [.node (.other "primitive_type") (some .type) ⟨11, 14⟩ false [],
              .node .fieldIdentifier (some .declarator) ⟨15, 16⟩ false [],
              .node (.token ";") none ⟨16, 17⟩ false []],
           .node (.token "\x7d") none ⟨18, 19⟩ false []]],
     .node (.token ";") none ⟨19, 20⟩ false [],
     .node .functionDefinition none ⟨21, 48⟩ false
       [.node (.other "primitive_type") (some .type) ⟨21, 25⟩ false [],
        .node .functionDeclarator (some .declarator) ⟨26, 29⟩ false
          [.node .identifier (some .declarator) ⟨26, 27⟩ false [],
           .node (.other "parameter_list") (some .parameters) ⟨27, 29⟩ false
             [.node (.token "(") none ⟨27, 28⟩ false [],
              .node (.token ")") none ⟨28, 29⟩ false []]],
        .node .compoundStatement (some .body) ⟨30, 48⟩ false
          [.node (.token "\x7b") none ⟨30, 31⟩ false [],
           .node .declaration none ⟨32, 46⟩ false
             [.node .structSpecifier (some .type) ⟨32, 40⟩ false
                [.node (.token "struct") none ⟨32, 38⟩ false [],
                 .node .typeIdentifier (some .name) ⟨39, 40⟩ false []],
              .node .arrayDeclarator (some .declarator) ⟨41, 45⟩ false
                [.node .identifier (some .declarator) ⟨41, 42⟩ false [],
                 .node (.token "[") none ⟨42, 43⟩ false [],
                 .node .numberLiteral (some .size) ⟨43, 44⟩ false [],
                 .node (.token "]") none ⟨44, 45⟩ false []],
              .node (.token ";") none ⟨45, 46⟩ false []],
           .node (.token "\x7d") none ⟨47, 48⟩ false []]],
     .node .functionDefinition none ⟨49, 71⟩ false
       [.node (.other "primitive_type") (some .type) ⟨49, 53⟩ false [],
        .node .functionDeclarator (some .declarator) ⟨54, 57⟩ false
          [.node .identifier (some .declarator) ⟨54, 55⟩ false [],
           .node (.other "parameter_list") (some .parameters) ⟨55, 57⟩ false
             [.node (.token "(") none ⟨55, 56⟩ false [],
              .node (.token ")") none ⟨56, 57⟩ false []]],
        .node .compoundStatement (some .body) ⟨58, 71⟩ false
          [.node (.token "\x7b") none ⟨58, 59⟩ false [],
           .node .declaration none ⟨60, 69⟩ false
             [.node (.other "primitive_type") (some .type) ⟨60, 63⟩ false [],
              .node .arrayDeclarator (some .declarator) ⟨64, 68⟩ false
                [.node .identifier (some .declarator) ⟨64, 65⟩ false [],
                 .node (.token "[") none ⟨65, 66⟩ false [],
                 .node .numberLiteral (some .size) ⟨66, 67⟩ false [],
                 .node (.token "]") none ⟨67, 68⟩ false []],
              .node (.token ";") none ⟨68, 69⟩ false []],
           .node (.token "\x7d") none ⟨70, 71⟩ false []]]]

/-- The functions as a file. -/
def recordsFile : SourceFile := ⟨"t.c", .ok recordsText, fun _ => recordsTree⟩

/-- The functions as a unit. -/
def recordsUnit : SourceUnit :=
  ⟨"t.c", recordsText, .root recordsTree, NameTable.build recordsText (.root recordsTree)⟩

theorem spansFit_records : ∀ file ∈ [recordsFile], file.SpansFit :=
  SourceFile.spansFit_singleton (by decide)

/-- The arrays of one name. -/
theorem exists_last_of_records :
    ∃ summary, ((build (RunSettings.selectedPasses { passes := [.stackToHeap] }) false
        true).perform [recordsFile]).1 = .ok summary ∧
      ∃ (file : FileSummary) (works : List Work) (pre post edits : List Edit),
        edits = pre ++ (works.flatMap (Work.edits recordsUnit) ++ post) ∧
          summary.files[0]? = some file ∧ recordsUnit.ComesOut edits file ∧
            Account {} recordsUnit works ∧ (∀ e ∈ pre ++ post, IsForeign recordsUnit e) ∧
              ∀ d decl d' decl' id, Work.move d decl none ∈ works →
                Work.move d' decl' (some id) ∈ works →
                  recordsUnit.text d.name = recordsUnit.text d'.name →
                    (ForwardsLast recordsUnit (.of {}) →
                      ¬ Redeclares recordsUnit edits file.output
                        (redeclaring recordsUnit d decl none)
                          (redeclaring recordsUnit d' decl' (some id))) ∧
                    (decl.stop < decl'.stop →
                      Redeclares recordsUnit edits file.output (redeclaring recordsUnit d decl none)
                        (redeclaring recordsUnit d' decl' (some id))) := by
  obtain ⟨summary, hrun, hout⟩ := exists_last_of_perform { passes := [.stackToHeap] } rfl false
    true [recordsFile] spansFit_records
  exact ⟨summary, hrun, hout 0 recordsUnit rfl⟩

/-- The first array is forwarded and the second one relocated. -/
theorem exists_namesakes_of_records : ∃ d decl d' decl', Renamed recordsUnit d decl ∧
    Renamed recordsUnit d' decl' ∧ recordsUnit.text d.name = "a" ∧ recordsUnit.text d'.name = "a" ∧
      isRelocated recordsUnit (.of {}) d.node d.type = false ∧
        isRelocated recordsUnit (.of {}) d'.node d'.type = true ∧ decl.stop < decl'.stop ∧
          d'.type = .array .int (some "3") ∧ d'.node.kind ≠ .initDeclarator := by
  have hfound : ∃ decl ∈ recordsUnit.root.walk, decl.kind = .declaration ∧
      ∃ d ∈ recordsUnit.declarators decl, (isEligible recordsUnit d.node = true ∧
        d.node.isSpelledInFile = true ∧ recordsUnit.withinMain d.node = false) ∧
          ∃ decl' ∈ recordsUnit.root.walk, decl'.kind = .declaration ∧
            ∃ d' ∈ recordsUnit.declarators decl', (isEligible recordsUnit d'.node = true ∧
              d'.node.isSpelledInFile = true ∧ recordsUnit.withinMain d'.node = false) ∧
                recordsUnit.text d.name = "a" ∧ recordsUnit.text d'.name = "a" ∧
                  isRelocated recordsUnit (.of {}) d.node d.type = false ∧
                    isRelocated recordsUnit (.of {}) d'.node d'.type = true ∧
                      decl.stop < decl'.stop ∧ d'.type = .array .int (some "3") ∧
                        d'.node.kind ≠ .initDeclarator := by
    decide +kernel
  obtain ⟨decl, hdecl, hkind, d, hd, ⟨heligible, hspelled, houtside⟩, decl', hdecl', hkind', d',
    hd', ⟨heligible', hspelled', houtside'⟩, hfacts⟩ := hfound
  exact ⟨d, decl, d', decl', ⟨hdecl, hkind, hd, heligible, hspelled, houtside⟩,
    ⟨hdecl', hkind', hd', heligible', hspelled', houtside'⟩, hfacts⟩

/-- **A forwarded name that is declared again**: with every array relocated that may be, the records
stay on the stack under the forwarded name, and the numbers are copied under it in the next
function. -/
theorem exists_redeclared :
    ∃ summary, ((build (RunSettings.selectedPasses { passes := [.stackToHeap] }) false
        true).perform [recordsFile]).1 = .ok summary ∧
      ∃ (file : FileSummary) (works : List Work) (pre post edits : List Edit),
        edits = pre ++ (works.flatMap (Work.edits recordsUnit) ++ post) ∧
          summary.files[0]? = some file ∧ recordsUnit.ComesOut edits file ∧
            ∃ d decl d' decl' id, Work.move d decl none ∈ works ∧
              Work.move d' decl' (some id) ∈ works ∧
                Redeclares recordsUnit edits file.output (redeclaring recordsUnit d decl none)
                  (redeclaring recordsUnit d' decl' (some id)) ∧
                ∃ before between after, file.output = before ++ ("\n#define a MUT_a\n" ++
                  (between ++ (heapCopy id "a" (.array .int (some "3")) false ++ after))) := by
  obtain ⟨summary, hrun, hout⟩ := exists_works { passes := [.stackToHeap] } rfl false true
    [recordsFile] spansFit_records
  obtain ⟨file, works, pre, post, hfile, hcomes, haccount, -⟩ := hout 0 recordsUnit rfl
  obtain ⟨d, decl, d', decl', hd, hd', hname, hname', hstays, hmoves, hlt, htype, hkind⟩ :=
    exists_namesakes_of_records
  have hunit : some recordsUnit ∈ [recordsFile].map (·.unit?) := List.mem_singleton_self _
  have hstop := hd.isBoundary_stop spansFit_records hunit
  have hstop' := hd'.isBoundary_stop spansFit_records hunit
  have hforward := haccount.forward_mem hd hstays
  obtain ⟨id, hcopy⟩ := haccount.exists_copy hd' hmoves
  obtain ⟨before, after, hcut⟩ := exists_textAt_eq (redeclaring_mem pre post hcopy)
  have hredeclares : Redeclares recordsUnit _ file.output (redeclaring recordsUnit d decl none)
      (redeclaring recordsUnit d' decl' (some id)) :=
    ⟨before, after, hcut, hcomes.standsAhead_of_lt (redeclaring_mem pre post hforward) hstop
      hstop' hlt hcut⟩
  refine ⟨summary, hrun, file, works, pre, post, _, rfl, hfile, hcomes, d, decl, d', decl', id,
    hforward, hcopy, hredeclares, ?_⟩
  have htext : (redeclaring recordsUnit d' decl' (some id)).text =
      heapCopy id "a" (.array .int (some "3")) false := by
    show heapCopy id (recordsUnit.text d'.name) d'.type (d'.node.kind == .initDeclarator) = _
    rw [hname', htype, beq_eq_false_iff_ne.mpr hkind]
  have hforwarding : (redeclaring recordsUnit d decl none).text = "\n#define a MUT_a\n" := by
    show forwarding (recordsUnit.text d.name) = _
    rw [hname]
    rfl
  rw [← htext, ← hforwarding]
  exact hredeclares.exists_output_eq hstop'

end Pipeline

end ProbeWeaver
