import ProbeWeaver.Proofs.Run.Forwards
import ProbeWeaver.Proofs.Typing.Elements

/-!
# Proofs/Run/Elements — which arrays stay because of what they hold

Arrays of constants are to stay as they are, and arrays of records are not to be copied.  The pass
reads both off the spelling of the declared type, so it does what the items ask for when the spelling
shows it, as it does whenever no type name hides them (`Pipeline.exists_honours_of_perform`).
-/

namespace ProbeWeaver

variable {u : SourceUnit} {d : Declarator} {decl : Node} {x : CType} {name : String}

/-! ## Records -/

/-- The name of a structure or a union. -/
def isRecordName (name : String) : Bool :=
  "struct ".toList.isPrefixOf name.toList || "union ".toList.isPrefixOf name.toList

/-- A structure or a union. -/
def CType.IsRecord (t : CType) : Prop := ∃ name, t.name? = some name ∧ isRecordName name = true

/-- A record's name spells what it is. -/
theorem contains_of_isRecordName (h : isRecordName name = true) :
    Text.contains name "struct" = true ∨ Text.contains name "union" = true := by
  rw [isRecordName, Bool.or_eq_true_iff, List.isPrefixOf_iff_prefix,
    List.isPrefixOf_iff_prefix] at h
  rw [Text.contains_iff, Text.contains_iff]
  exact h.imp (fun h => ((List.prefix_append "struct".toList [' ']).trans h).isInfix)
    fun h => ((List.prefix_append "union".toList [' ']).trans h).isInfix

namespace Relocation

/-- The spelling of the element type shows a record. -/
def SpellsRecord (type : CType) : Prop :=
  Text.contains (elementSpelling type) "struct" = true ∨
    Text.contains (elementSpelling type) "union" = true

/-- **Elements that are records show** in the spelling. -/
theorem spellsRecord_of_innermost {type : CType} (harray : type.isArray = true)
    (h : type.innermost.IsRecord) : SpellsRecord type := by
  obtain ⟨name, hname, hrecord⟩ := h
  cases type with
  | array element size =>
    exact (contains_of_isRecordName hrecord).imp (CType.contains_render_of_innermost hname)
      (CType.contains_render_of_innermost hname)
  | named | pointer | function => contradiction

/-! ## Arrays of the pass -/

/-- **An array that the pass would rename**, if its type spelled no `const`: of few dimensions, right
in a block outside `main` and not `extern`. -/
structure Candidate (u : SourceUnit) (d : Declarator) (decl : Node) : Prop where
  place : decl ∈ u.root.walk
  kind : decl.kind = .declaration
  declares : d ∈ u.declarators decl
  inBlock : ∃ block, decl.parent? = some block ∧ block.kind = .compoundStatement
  isLocal : "extern" ∉ Declarator.storageWords u.source decl
  isArray : d.type.isArray = true
  rank : d.type.arrayRank ≤ mostDimensions
  spelled : d.node.isSpelledInFile = true
  outside : u.withinMain d.node = false

/-- **Which arrays are renamed.** -/
theorem renamed_iff : Renamed u d decl ↔ Candidate u d decl ∧ d.type.spellsConst = false := by
  constructor
  · intro h
    obtain ⟨hblock, hlocal, harray, hrank, hconst⟩ := (isEligible_iff h.declares).mp h.eligible
    exact ⟨⟨h.place, h.kind, h.declares, hblock, hlocal, harray, hrank, h.spelled, h.outside⟩,
      hconst⟩
  · rintro ⟨h, hconst⟩
    exact ⟨h.place, h.kind, h.declares, (isEligible_iff h.declares).mpr
      ⟨h.inBlock, h.isLocal, h.isArray, h.rank, hconst⟩, h.spelled, h.outside⟩

/-- **What a copied array is**: its elements spell no record, and its name wins the lottery. -/
theorem isRelocated_eq_false_iff {lottery : Lottery} (hd : d ∈ u.declarators decl) :
    isRelocated u lottery d.node d.type = false ↔
      (lottery.wins (u.text d.name) d.node.start = true → SpellsRecord d.type) := by
  rw [isRelocated, SourceUnit.nameGiven?, (SourceUnit.declarator?_of_mem hd).2, Option.map_some,
    SpellsRecord]
  dsimp only
  cases Text.contains (elementSpelling d.type) "struct" <;>
    cases Text.contains (elementSpelling d.type) "union" <;>
      cases lottery.wins (u.text d.name) d.node.start <;> decide

namespace Account

variable {config : RelocationConfig} {works : List Work}

/-- **An array is left alone** if the pass does not rename it, and only then. -/
theorem forall_move_not_mem_iff (h : Account config u works) :
    (∀ number?, Work.move d decl number? ∉ works) ↔ ¬ Renamed u d decl := by
  constructor
  · intro hnone hd
    obtain ⟨number?, hmove⟩ := h.moves d decl hd
    exact hnone number? hmove
  · exact fun hd number? hmove => hd (h.due _ hmove).1

/-- **An array is not copied** if it is not renamed, or not relocated. -/
theorem forall_copy_not_mem_iff (h : Account config u works) :
    (∀ id, Work.move d decl (some id) ∉ works) ↔
      (Renamed u d decl → isRelocated u (.of config) d.node d.type = false) := by
  constructor
  · intro hnone hd
    rw [Bool.eq_false_iff]
    intro hmoves
    obtain ⟨id, hcopy⟩ := h.exists_copy hd hmoves
    exact hnone id hcopy
  · intro hstays id hcopy
    obtain ⟨hd, hmoves⟩ := h.due _ hcopy
    exact nomatch hmoves.trans (hstays hd)

end Account

/-- **What the pass does about an array, by its items.**  Constants are left alone if their spelling
shows them, and only then; records are not copied if theirs does, and only then.  The spelling shows
what the declaration itself says: an element that is no type name, or a `const` beside one. -/
structure Honours (lottery : Lottery) (u : SourceUnit) (works : List Work) (d : Declarator)
    (decl : Node) (x : CType) : Prop where
  constants : x.qualifiers.isConst = true →
    ((∀ number?, Work.move d decl number? ∉ works) ↔
      (Candidate u d decl → d.type.spellsConst = true))
  constants_shown : x.qualifiers.isConst = true →
    u.names.IsSettled d.type.innermost ∨ d.type.innermost.qualifiers.isConst = true →
      d.type.spellsConst = true
  records : x.IsRecord →
    ((∀ id, Work.move d decl (some id) ∉ works) ↔
      (Renamed u d decl → lottery.wins (u.text d.name) d.node.start = true → SpellsRecord d.type))
  records_shown : x.IsRecord → d.type.isArray = true → u.names.IsSettled d.type.innermost →
    SpellsRecord d.type

/-- **The work in a file** goes by what the arrays hold, as far as it is spelled. -/
theorem Account.honours {config : RelocationConfig} {works : List Work}
    (h : Account config u works) (hd : d ∈ u.declarators decl)
    (hx : u.names.ConsistsOf d.type x) : Honours (.of config) u works d decl x where
  constants _ := by
    rw [h.forall_move_not_mem_iff, renamed_iff, not_and, Bool.not_eq_false]
  constants_shown hconst hshown := by
    refine CType.spellsConst_of_innermost (hshown.elim (fun hsettled => ?_) id)
    rwa [← hx.eq_innermost hsettled]
  records _ := by
    rw [h.forall_copy_not_mem_iff, isRelocated_eq_false_iff hd]
  records_shown hrecord harray hsettled :=
    spellsRecord_of_innermost harray (hx.eq_innermost hsettled ▸ hrecord)

end Relocation

namespace Pipeline

open Relocation

/-- **Arrays go by what they hold**, as far as it is spelled.  Whatever the configuration, as long as
it lists the stack-to-heap pass once, and whatever the files, as long as the parser's spans fit the
texts: the run succeeds, and in each file every array of constants is neither renamed, forwarded nor
copied exactly when its declared type spells `const` or the pass is not about it anyway; and every
array of records is not copied exactly when its element type spells so, or it is not renamed, or its
name does not win. -/
theorem exists_honours_of_perform (config : RunSettings)
    (honce : config.passes.count .stackToHeap = 1) (validateOutput dryRun : Bool)
    (files : List SourceFile) (hfiles : ∀ file ∈ files, file.SpansFit) :
    ∃ summary, ((build config.selectedPasses validateOutput dryRun).perform files).1 =
        .ok summary ∧
      ∀ (place : Nat) (u : SourceUnit), (files.map (·.unit?))[place]? = some (some u) →
        ∃ (file : FileSummary) (works : List Work) (pre post : List Edit),
          summary.files[place]? = some file ∧
            u.ComesOut (pre ++ (works.flatMap (Work.edits u) ++ post)) file ∧
              (∀ e ∈ pre ++ post, IsForeign u e) ∧
                ∀ decl, ∀ d ∈ u.declarators decl, ∀ x, u.names.ConsistsOf d.type x →
                  Honours (.of config.relocation) u works d decl x := by
  obtain ⟨summary, hrun, hout⟩ := exists_works config honce validateOutput dryRun files hfiles
  refine ⟨summary, hrun, fun place u hunit => ?_⟩
  obtain ⟨file, works, pre, post, hfile, hcomes, haccount, hforeign⟩ := hout place u hunit
  exact ⟨file, works, pre, post, hfile, hcomes, hforeign, fun decl d hd x hx =>
    haccount.honours hd hx⟩

/-! ## Items behind type names -/

/-- Arrays of constants and of records, each declared through a type name. -/
def aliasedText : String :=
  "typedef const int K;\ntypedef struct \x7b int x; \x7d P;\nvoid f() \x7b K a[2]; P b[2]; \x7d\n"

/-- The tree of the arrays in their function. -/
def aliasedTree : Tree :=
  .node .sourceUnit none ⟨0, 79⟩ false
    [.node .typeDefinition none ⟨0, 20⟩ false
       [.node (.token "typedef") none ⟨0, 7⟩ false [],
        .node .typeQualifier none ⟨8, 13⟩ false
          [.node (.token "const") none ⟨8, 13⟩ false []],
        .node (.other "primitive_type") (some .type) ⟨14, 17⟩ false [],
        .node .typeIdentifier (some .declarator) ⟨18, 19⟩ false [],
        .node (.token ";") none ⟨19, 20⟩ false []],
     .node .typeDefinition none ⟨21, 49⟩ false
       [.node (.token "typedef") none ⟨21, 28⟩ false [],
        .node .structSpecifier (some .type) ⟨29, 46⟩ false
          [.node (.token "struct") none ⟨29, 35⟩ false [],
           .node (.other "field_declaration_list") (some .body) ⟨36, 46⟩ false
             [.node (.token "\x7b") none ⟨36, 37⟩ false [],
              .node .fieldDeclaration none ⟨38, 44⟩ false
                [.node (.other "primitive_type") (some .type) ⟨38, 41⟩ false [],
                 .node .fieldIdentifier (some .declarator) ⟨42, 43⟩ false [],
                 .node (.token ";") none ⟨43, 44⟩ false []],
              .node (.token "\x7d") none ⟨45, 46⟩ false []]],
        .node .typeIdentifier (some .declarator) ⟨47, 48⟩ false [],
        .node (.token ";") none ⟨48, 49⟩ false []],
     .node .functionDefinition none ⟨50, 78⟩ false
       [.node (.other "primitive_type") (some .type) ⟨50, 54⟩ false [],
        .node .functionDeclarator (some .declarator) ⟨55, 58⟩ false
          [.node .identifier (some .declarator) ⟨55, 56⟩ false [],
           .node (.other "parameter_list") (some .parameters) ⟨56, 58⟩ false
             [.node (.token "(") none ⟨56, 57⟩ false [],
              .node (.token ")") none ⟨57, 58⟩ false []]],
        .node .compoundStatement (some .body) ⟨59, 78⟩ false
          [.node (.token "\x7b") none ⟨59, 60⟩ false [],
           .node .declaration none ⟨61, 68⟩ false
             [.node .typeIdentifier (some .type) ⟨61, 62⟩ false [],
              .node .arrayDeclarator (some .declarator) ⟨63, 67⟩ false
                [.node .identifier (some .declarator) ⟨63, 64⟩ false [],
                 .node (.token "[") none ⟨64, 65⟩ false [],
                 .node .numberLiteral (some .size) ⟨65, 66⟩ false [],
                 .node (.token "]") none ⟨66, 67⟩ false []],
              .node (.token ";") none ⟨67, 68⟩ false []],
           .node .declaration none ⟨69, 76⟩ false
             [.node .typeIdentifier (some .type) ⟨69, 70⟩ false [],
              .node .arrayDeclarator (some .declarator) ⟨71, 75⟩ false
                [.node .identifier (some .declarator) ⟨71, 72⟩ false [],
                 .node (.token "[") none ⟨72, 73⟩ false [],
                 .node .numberLiteral (some .size) ⟨73, 74⟩ false [],
                 .node (.token "]") none ⟨74, 75⟩ false []],
              .node (.token ";") none ⟨75, 76⟩ false []],
           .node (.token "\x7d") none ⟨77, 78⟩ false []]]]

/-- The function as a file. -/
def aliasedFile : SourceFile := ⟨"t.c", .ok aliasedText, fun _ => aliasedTree⟩

/-- The function as a unit. -/
def aliasedUnit : SourceUnit :=
  ⟨"t.c", aliasedText, .root aliasedTree, NameTable.build aliasedText (.root aliasedTree)⟩

theorem spansFit_aliased : ∀ file ∈ [aliasedFile], file.SpansFit :=
  SourceFile.spansFit_singleton (by decide)

/-- The arrays of the function, by what they hold. -/
theorem exists_honours_of_aliased :
    ∃ summary, ((build (RunSettings.selectedPasses { passes := [.stackToHeap] }) false
        true).perform [aliasedFile]).1 = .ok summary ∧
      ∃ (file : FileSummary) (works : List Work) (pre post : List Edit),
        summary.files[0]? = some file ∧
          aliasedUnit.ComesOut (pre ++ (works.flatMap (Work.edits aliasedUnit) ++ post)) file ∧
            (∀ e ∈ pre ++ post, IsForeign aliasedUnit e) ∧
              ∀ decl, ∀ d ∈ aliasedUnit.declarators decl, ∀ x,
                aliasedUnit.names.ConsistsOf d.type x →
                  Honours (.of {}) aliasedUnit works d decl x := by
  obtain ⟨summary, hrun, hout⟩ := exists_honours_of_perform { passes := [.stackToHeap] } rfl false
    true [aliasedFile] spansFit_aliased
  exact ⟨summary, hrun, hout 0 aliasedUnit rfl⟩

/-- Both arrays are relocated. -/
theorem exists_arrays_of_aliased : ∃ d decl d' decl', Renamed aliasedUnit d decl ∧
    Renamed aliasedUnit d' decl' ∧ isRelocated aliasedUnit (.of {}) d.node d.type = true ∧
      isRelocated aliasedUnit (.of {}) d'.node d'.type = true ∧
        d.type = .array (.plain "K") (some "2") ∧ d'.type = .array (.plain "P") (some "2") := by
  have hfound : ∃ decl ∈ aliasedUnit.root.walk, decl.kind = .declaration ∧
      ∃ d ∈ aliasedUnit.declarators decl, (isEligible aliasedUnit d.node = true ∧
        d.node.isSpelledInFile = true ∧ aliasedUnit.withinMain d.node = false) ∧
          ∃ decl' ∈ aliasedUnit.root.walk, decl'.kind = .declaration ∧
            ∃ d' ∈ aliasedUnit.declarators decl', (isEligible aliasedUnit d'.node = true ∧
              d'.node.isSpelledInFile = true ∧ aliasedUnit.withinMain d'.node = false) ∧
                isRelocated aliasedUnit (.of {}) d.node d.type = true ∧
                  isRelocated aliasedUnit (.of {}) d'.node d'.type = true ∧
                    d.type = .array (.plain "K") (some "2") ∧
                      d'.type = .array (.plain "P") (some "2") := by
    decide +kernel
  obtain ⟨decl, hdecl, hkind, d, hd, ⟨heligible, hspelled, houtside⟩, decl', hdecl', hkind', d',
    hd', ⟨heligible', hspelled', houtside'⟩, hfacts⟩ := hfound
  exact ⟨d, decl, d', decl', ⟨hdecl, hkind, hd, heligible, hspelled, houtside⟩,
    ⟨hdecl', hkind', hd', heligible', hspelled', houtside'⟩, hfacts⟩

/-- **Constants and records that are copied**: the one array consists of constant integers and the other
one of structures, behind type names that spell neither, and both are renamed and copied. -/
theorem exists_copied_constants :
    ∃ summary, ((build (RunSettings.selectedPasses { passes := [.stackToHeap] }) false
        true).perform [aliasedFile]).1 = .ok summary ∧
      ∃ (file : FileSummary) (works : List Work) (pre post : List Edit),
        summary.files[0]? = some file ∧
          aliasedUnit.ComesOut (pre ++ (works.flatMap (Work.edits aliasedUnit) ++ post)) file ∧
            ∃ d decl id d' decl' id', Work.move d decl (some id) ∈ works ∧
              aliasedUnit.names.ConsistsOf d.type (.named "int" ⟨true, false⟩) ∧
                Work.move d' decl' (some id') ∈ works ∧
                  aliasedUnit.names.ConsistsOf d'.type
                    (.plain "struct (anonymous at byte 29)") := by
  obtain ⟨summary, hrun, hout⟩ := exists_works { passes := [.stackToHeap] } rfl false true
    [aliasedFile] spansFit_aliased
  obtain ⟨file, works, pre, post, hfile, hcomes, haccount, -⟩ := hout 0 aliasedUnit rfl
  obtain ⟨d, decl, d', decl', hd, hd', hmoves, hmoves', htype, htype'⟩ := exists_arrays_of_aliased
  obtain ⟨id, hcopy⟩ := haccount.exists_copy hd hmoves
  obtain ⟨id', hcopy'⟩ := haccount.exists_copy hd' hmoves'
  have hK : aliasedUnit.names.target? "K" = some (.named "int" ⟨true, false⟩) := by decide +kernel
  have hP : aliasedUnit.names.target? "P" = some (.plain "struct (anonymous at byte 29)") := by
    decide +kernel
  refine ⟨summary, hrun, file, works, pre, post, hfile, hcomes, d, decl, id, d', decl', id', hcopy,
    ?_, hcopy', ?_⟩
  · rw [htype]
    exact .array (.link hK (.item (NameTable.isSettled_named_iff.mpr (by decide +kernel)) rfl))
  · rw [htype']
    exact .array (.link hP (.item (NameTable.isSettled_named_iff.mpr (by decide +kernel)) rfl))

end Pipeline

end ProbeWeaver
