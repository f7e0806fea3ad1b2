import ProbeWeaver.Proofs.Run.Elements
import ProbeWeaver.Proofs.Typing.Spelling

/-!
# Proofs/Run/Copies — how heap copies are declared

The helpers declare a copy by stars between the spelling of the items' type and the name of the
array.  That declares pointers to the items when their type is a name behind pointers, and for no
other type (`Pipeline.exists_typed_copies_of_perform`): a pointer to a function or to an array needs its
stars inside the spelling.
-/

namespace ProbeWeaver

variable {u : SourceUnit} {d : Declarator} {decl : Node} {id : Nat}

namespace Relocation

/-- The type of the items of an array, without its outer qualifiers. -/
def itemType (type : CType) : CType := type.innermost.unqualified

theorem isPointerChain_itemType (type : CType) :
    (itemType type).isPointerChain = type.innermost.isPointerChain :=
  CType.isPointerChain_unqualified _

/-- **How a copy is declared**: by a call with the name, its shadow and the spelling of the items'
type.  The spelling with a star declares a pointer to an item, and with a star for each dimension
the copy, exactly when the items' type is a name behind pointers. -/
structure Declares (u : SourceUnit) (d : Declarator) (id : Nat) : Prop where
  call : ∃ front, redeclared u d (some id) = front ++ "\ninit_arr_" ++ toString d.type.arrayRank ++
    (if d.node.kind == .initDeclarator then "" else "_uninit") ++ "(" ++ u.text d.name ++
      ", MUT_" ++ u.text d.name ++ ", " ++ (itemType d.type).render ++ ")"
  pointer : Text.ink ((itemType d.type).render ++ "*") =
    Text.ink (CType.pointerTo (itemType d.type)).render ↔ d.type.innermost.isPointerChain = true
  copy : (itemType d.type).SpellsPointers d.type.arrayRank ↔
    d.type.innermost.isPointerChain = true

theorem declares (harray : d.type.isArray = true) : Declares u d id where
  call := ⟨_, rfl⟩
  pointer := by
    rw [← isPointerChain_itemType]
    have hone : (itemType d.type).SpellsPointers 1 ↔ (itemType d.type).isPointerChain = true :=
      CType.spellsPointers_iff Nat.one_pos
    exact hone
  copy := by
    rw [← isPointerChain_itemType]
    refine CType.spellsPointers_iff ?_
    cases htype : d.type with
    | array => exact Nat.succ_pos _
    | named | pointer | function => rw [htype] at harray; contradiction

/-- A renamed array is an array. -/
theorem Renamed.isArray (h : Renamed u d decl) : d.type.isArray = true :=
  (renamed_iff.mp h).1.isArray

end Relocation

namespace Pipeline

open Relocation

/-- **Copies of names behind pointers.**  Whatever the configuration, as long as it lists the
stack-to-heap pass once, and whatever the files, as long as the parser's spans fit the texts: the
run succeeds, and each array that it copies is declared again with a spelling that, with a star
behind it, spells a pointer to an item exactly when the item type is a name behind pointers. -/
theorem exists_typed_copies_of_perform (config : RunSettings)
    (honce : config.passes.count .stackToHeap = 1) (validateOutput dryRun : Bool)
    (files : List SourceFile) (hfiles : ∀ file ∈ files, file.SpansFit) :
    ∃ summary, ((build config.selectedPasses validateOutput dryRun).perform files).1 =
        .ok summary ∧
      ∀ (place : Nat) (u : SourceUnit), (files.map (·.unit?))[place]? = some (some u) →
        ∃ (file : FileSummary) (works : List Work) (pre post : List Edit),
          summary.files[place]? = some file ∧
            u.ComesOut (pre ++ (works.flatMap (Work.edits u) ++ post)) file ∧
              (∀ e ∈ pre ++ post, IsForeign u e) ∧
                ∀ d decl id, Work.move d decl (some id) ∈ works → Declares u d id := by
  obtain ⟨summary, hrun, hout⟩ := exists_works config honce validateOutput dryRun files hfiles
  refine ⟨summary, hrun, fun place u hunit => ?_⟩
  obtain ⟨file, works, pre, post, hfile, hcomes, haccount, hforeign⟩ := hout place u hunit
  exact ⟨file, works, pre, post, hfile, hcomes, hforeign, fun d decl id hcopy =>
    declares (haccount.due _ hcopy).1.isArray⟩

/-! ## Items with their stars inside -/

/-- An array of pointers to functions, and one of pointers to arrays. -/
def callbacksText : String := "void f() \x7b int (*a[2])(int); int (*b[2])[3]; \x7d\n"

/-- The tree of the arrays in their function. -/
def callbacksTree : Tree :=
  .node .sourceUnit none ⟨0, 47⟩ false
    [.node .functionDefinition none ⟨0, 46⟩ false
       [.node (.other "primitive_type") (some .type) ⟨0, 4⟩ false [],
        .node .functionDeclarator (some .declarator) ⟨5, 8⟩ false
          [.node .identifier (some .declarator) ⟨5, 6⟩ false [],
           .node (.other "parameter_list") (some .parameters) ⟨6, 8⟩ false
             [.node (.token "(") none ⟨6, 7⟩ false [],
              .node (.token ")") none ⟨7, 8⟩ false []]],
        .node .compoundStatement (some .body) ⟨9, 46⟩ false
          [.node (.token "\x7b") none ⟨9, 10⟩ false [],
           .node .declaration none ⟨11, 28⟩ false
             [.node (.other "primitive_type") (some .type) ⟨11, 14⟩ false [],
              .node .functionDeclarator (some .declarator) ⟨15, 27⟩ false
                [.node .parenthesizedDeclarator (some .declarator) ⟨15, 22⟩ false
                   [.node (.token "(") none ⟨15, 16⟩ false [],
                    .node .pointerDeclarator (some .declarator) ⟨16, 21⟩ false
                      [.node (.token "*") none ⟨16, 17⟩ false [],
                       .node .arrayDeclarator (some .declarator) ⟨17, 21⟩ false
                         [.node .identifier (some .declarator) ⟨17, 18⟩ false [],
                          .node (.token "[") none ⟨18, 19⟩ false [],
                          .node .numberLiteral (some .size) ⟨19, 20⟩ false [],
                          .node (.token "]") none ⟨20, 21⟩ false []]],
                    .node (.token ")") none ⟨21, 22⟩ false []],
                 .node (.other "parameter_list") (some .parameters) ⟨22, 27⟩ false
                   [.node (.token "(") none ⟨22, 23⟩ false [],
                    .node .parameterDeclaration none ⟨23, 26⟩ false
                      [.node (.other "primitive_type") (some .type) ⟨23, 26⟩ false []],
                    .node (.token ")") none ⟨26, 27⟩ false []]],
              .node (.token ";") none ⟨27, 28⟩ false []],
           .node .declaration none ⟨29, 44⟩ false
             [.node (.other "primitive_type") (some .type) ⟨29, 32⟩ false [],
              .node .arrayDeclarator (some .declarator) ⟨33, 43⟩ false
                [.node .parenthesizedDeclarator (some .declarator) ⟨33, 40⟩ false
                   [.node (.token "(") none ⟨33, 34⟩ false [],
                    .node .pointerDeclarator (some .declarator) ⟨34, 39⟩ false
                      [.node (.token "*") none ⟨34, 35⟩ false [],
                       .node .arrayDeclarator (some .declarator) ⟨35, 39⟩ false
                         [.node .identifier (some .declarator) ⟨35, 36⟩ false [],
                          .node (.token "[") none ⟨36, 37⟩ false [],
                          .node .numberLiteral (some .size) ⟨37, 38⟩ false [],
                          .node (.token "]") none ⟨38, 39⟩ false []]],
                    .node (.token ")") none ⟨39, 40⟩ false []],
                 .node (.token "[") none ⟨40, 41⟩ false [],
                 .node .numberLiteral (some .size) ⟨41, 42⟩ false [],
                 .node (.token "]") none ⟨42, 43⟩ false []],
              .node (.token ";") none ⟨43, 44⟩ false []],
           .node (.token "\x7d") none ⟨45, 46⟩ false []]]]

/-- The function as a file. -/
def callbacksFile : SourceFile := ⟨"t.c", .ok callbacksText, fun _ => callbacksTree⟩

/-- The function as a unit. -/
def callbacksUnit : SourceUnit :=
  ⟨"t.c", callbacksText, .root callbacksTree, NameTable.build callbacksText (.root callbacksTree)⟩

theorem spansFit_callbacks : ∀ file ∈ [callbacksFile], file.SpansFit :=
  SourceFile.spansFit_singleton (by decide)

/-- The copies of the arrays, as far as they are declared. -/
theorem exists_typed_copies_of_callbacks :
    ∃ summary, ((build (RunSettings.selectedPasses { passes := [.stackToHeap] }) false
        true).perform [callbacksFile]).1 = .ok summary ∧
      ∃ (file : FileSummary) (works : List Work) (pre post : List Edit),
        summary.files[0]? = some file ∧
          callbacksUnit.ComesOut (pre ++ (works.flatMap (Work.edits callbacksUnit) ++ post)) file ∧
            (∀ e ∈ pre ++ post, IsForeign callbacksUnit e) ∧
              ∀ d decl id, Work.move d decl (some id) ∈ works → Declares callbacksUnit d id := by
  obtain ⟨summary, hrun, hout⟩ := exists_typed_copies_of_perform { passes := [.stackToHeap] } rfl false
    true [callbacksFile] spansFit_callbacks
  exact ⟨summary, hrun, hout 0 callbacksUnit rfl⟩

/-- Both arrays are relocated. -/
theorem exists_arrays_of_callbacks : ∃ d decl d' decl', Renamed callbacksUnit d decl ∧
    Renamed callbacksUnit d' decl' ∧ isRelocated callbacksUnit (.of {}) d.node d.type = true ∧
      isRelocated callbacksUnit (.of {}) d'.node d'.type = true ∧
        d.type = .array (.pointerTo (.function .int [.int])) (some "2") ∧
          d'.type = .array (.pointerTo (.array .int (some "3"))) (some "2") := by
  have hfound : ∃ decl ∈ callbacksUnit.root.walk, decl.kind = .declaration ∧
      ∃ d ∈ callbacksUnit.declarators decl, (isEligible callbacksUnit d.node = true ∧
        d.node.isSpelledInFile = true ∧ callbacksUnit.withinMain d.node = false) ∧
          ∃ decl' ∈ callbacksUnit.root.walk, decl'.kind = .declaration ∧
            ∃ d' ∈ callbacksUnit.declarators decl', (isEligible callbacksUnit d'.node = true ∧
              d'.node.isSpelledInFile = true ∧ callbacksUnit.withinMain d'.node = false) ∧
                isRelocated callbacksUnit (.of {}) d.node d.type = true ∧
                  isRelocated callbacksUnit (.of {}) d'.node d'.type = true ∧
                    d.type = .array (.pointerTo (.function .int [.int])) (some "2") ∧
                      d'.type = .array (.pointerTo (.array .int (some "3"))) (some "2") := by
    decide +kernel
  obtain ⟨decl, hdecl, hkind, d, hd, ⟨heligible, hspelled, houtside⟩, decl', hdecl', hkind', d',
    hd', ⟨heligible', hspelled', houtside'⟩, hfacts⟩ := hfound
  exact ⟨d, decl, d', decl', ⟨hdecl, hkind, hd, heligible, hspelled, houtside⟩,
    ⟨hdecl', hkind', hd', heligible', hspelled', houtside'⟩, hfacts⟩

/-- **Copies that nothing declares**: pointers to functions and pointers to arrays are copied, and
the spelling of neither may stand before a star. -/
theorem exists_undeclared_copies :
    ∃ summary, ((build (RunSettings.selectedPasses { passes := [.stackToHeap] }) false
        true).perform [callbacksFile]).1 = .ok summary ∧
      ∃ (file : FileSummary) (works : List Work) (pre post : List Edit),
        summary.files[0]? = some file ∧
          callbacksUnit.ComesOut (pre ++ (works.flatMap (Work.edits callbacksUnit) ++ post)) file ∧
            ∃ d decl id d' decl' id',
              (Work.move d decl (some id) ∈ works ∧ (itemType d.type).render = "int (*)(int)" ∧
                Text.ink ((itemType d.type).render ++ "*") ≠
                  Text.ink (CType.pointerTo (itemType d.type)).render) ∧
                Work.move d' decl' (some id') ∈ works ∧ (itemType d'.type).render = "int (*)[3]" ∧
                  Text.ink ((itemType d'.type).render ++ "*") ≠
                    Text.ink (CType.pointerTo (itemType d'.type)).render := by
  obtain ⟨summary, hrun, hout⟩ := exists_works { passes := [.stackToHeap] } rfl false true
    [callbacksFile] spansFit_callbacks
  obtain ⟨file, works, pre, post, hfile, hcomes, haccount, -⟩ := hout 0 callbacksUnit rfl
  obtain ⟨d, decl, d', decl', hd, hd', hmoves, hmoves', htype, htype'⟩ :=
    exists_arrays_of_callbacks
  obtain ⟨id, hcopy⟩ := haccount.exists_copy hd hmoves
  obtain ⟨id', hcopy'⟩ := haccount.exists_copy hd' hmoves'
  refine ⟨summary, hrun, file, works, pre, post, hfile, hcomes, d, decl, id, d', decl', id',
    ⟨hcopy, ?_⟩, hcopy', ?_⟩
  · rw [htype]
    decide +kernel
  · rw [htype']
    decide +kernel

end Pipeline

end ProbeWeaver
