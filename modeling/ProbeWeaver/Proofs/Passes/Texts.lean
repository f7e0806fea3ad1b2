import ProbeWeaver.Proofs.Passes.Insertive
import ProbeWeaver.Proofs.Rule.Evaluation
import ProbeWeaver.Proofs.Rule.Relations

/-!
# Proofs/Passes/Texts — every text that the rules insert

`Inserted u exprs draws text` lists the forms of text that rules insert into a file on their way
through it: fixed texts, markers, probes, hooks and what relocation writes.  It says which numbers
the text was made with, which expressions it evaluates, and that everything foreign in it is one of
the file's `quotes`.  The lines that late rules put at the start of a file are `Heading`s.

* `Rule.Listed.writes` — each edit of each rule of each pass has one of these forms.
-/

namespace ProbeWeaver

open Node (PlaceOf)

variable {t : Tree} {u : SourceUnit} {cx : EditContext} {m : Match} {r : Rule} {n : Node}
  {name : String} {E F : List Node → Prop}

/-! ## Quotes -/

namespace SourceUnit

/-- The types that operands of an expression are reported in. -/
def convertedSpellings (u : SourceUnit) (expr left right : Node) : List String :=
  match u.operator? expr with
  | none => []
  | some op =>
    match Observation.convertedTypes? u op expr left right with
    | none => []
    | some (l, r) => [l.render, r.render]

/-- What is quoted of a declarator: its type, and what an array of it holds. -/
def declaratorSpellings (d : Declarator) : List String :=
  [d.type.withoutVolatile.render, Relocation.elementSpelling d.type,
    d.type.innermost.unqualified.render]

/-- What rules may quote of a construct. -/
def quotesAt (u : SourceUnit) (n : Node) : List String :=
  [u.text n, Observation.operandText u n, Tracing.resultSpelling u n] ++ (u.operator? n).toList ++
    (n.definedName? u.source).toList ++ ((u.printedType? n).map (·.render)).toList ++
    (u.declarators n).flatMap declaratorSpellings ++
    n.children.flatMap fun l => n.children.flatMap fun r => u.convertedSpellings n l r

/-- **What rules may quote from a file**: spellings of its constructs, operands, operators, names
and types. -/
def quotes (u : SourceUnit) : List String := "int" :: u.root.walk.flatMap u.quotesAt

theorem mem_quotes_of_mem_quotesAt {s : String} (hu : u.root = .root t) (hn : n.PlaceOf t)
    (hs : s ∈ u.quotesAt n) : s ∈ u.quotes :=
  List.mem_cons_of_mem _ (List.mem_flatMap.mpr ⟨n, hu ▸ hn.mem_walk, hs⟩)

theorem text_mem_quotes (hu : u.root = .root t) (hn : n.PlaceOf t) : u.text n ∈ u.quotes :=
  mem_quotes_of_mem_quotesAt hu hn (by simp [quotesAt])

theorem operandText_mem_quotes (hu : u.root = .root t) (hn : n.PlaceOf t) :
    Observation.operandText u n ∈ u.quotes :=
  mem_quotes_of_mem_quotesAt hu hn (by simp [quotesAt])

theorem resultSpelling_mem_quotes (hu : u.root = .root t) (hn : n.PlaceOf t) :
    Tracing.resultSpelling u n ∈ u.quotes :=
  mem_quotes_of_mem_quotesAt hu hn (by simp [quotesAt])

theorem definedName_mem_quotes (hu : u.root = .root t) (hn : n.PlaceOf t)
    (hname : n.definedName? u.source = some name) : name ∈ u.quotes :=
  mem_quotes_of_mem_quotesAt hu hn (by simp [quotesAt, hname])

theorem operator_mem_quotes (hu : u.root = .root t) (hn : n.PlaceOf t)
    (hname : u.operator? n = some name) : name ∈ u.quotes :=
  mem_quotes_of_mem_quotesAt hu hn (by simp [quotesAt, hname])

theorem printedType_mem_quotes {type : CType} (hu : u.root = .root t) (hn : n.PlaceOf t)
    (htype : u.printedType? n = some type) : type.render ∈ u.quotes :=
  mem_quotes_of_mem_quotesAt hu hn (by simp [quotesAt, htype])

theorem reportedType_mem_quotes {type : CType} (hu : u.root = .root t) (hn : n.PlaceOf t)
    (htype : Observation.reportedType? u n = some type) : type.render ∈ u.quotes :=
  printedType_mem_quotes hu hn (Option.filter_eq_some_iff.mp htype).1

theorem declarator_mem_quotes {d : Declarator} {s : String} (hu : u.root = .root t)
    (hn : n.PlaceOf t) (hd : d ∈ u.declarators n) (hs : s ∈ declaratorSpellings d) :
    s ∈ u.quotes := by
  refine mem_quotes_of_mem_quotesAt hu hn (List.mem_append_left _ (List.mem_append_right _ ?_))
  exact List.mem_flatMap.mpr ⟨d, hd, hs⟩

theorem converted_mem_quotes {op : String} {left right : Node} {l r : CType}
    (hu : u.root = .root t) (hn : n.PlaceOf t) (hleft : left ∈ n.children)
    (hright : right ∈ n.children) (hop : u.operator? n = some op)
    (htypes : Observation.convertedTypes? u op n left right = some (l, r)) :
    l.render ∈ u.quotes ∧ r.render ∈ u.quotes := by
  have hspellings : u.convertedSpellings n left right = [l.render, r.render] := by
    rw [convertedSpellings, hop]
    dsimp only
    rw [htypes]
  have hmem : ∀ s ∈ u.convertedSpellings n left right, s ∈ u.quotes := fun s hs =>
    mem_quotes_of_mem_quotesAt hu hn <| List.mem_append_right _ <|
      List.mem_flatMap.mpr ⟨left, hleft, List.mem_flatMap.mpr ⟨right, hright, hs⟩⟩
  rw [hspellings] at hmem
  exact ⟨hmem _ List.mem_cons_self, hmem _ (.tail _ (.head _))⟩

/-- The declarator at a place is one of those of the construct above. -/
theorem exists_mem_declarators {d : Declarator} (hn : n.PlaceOf t)
    (hd : u.declarator? n = some d) :
    ∃ decl, n.parent? = some decl ∧ decl.PlaceOf t ∧ d ∈ u.declarators decl := by
  obtain ⟨decl, hdecl, hfind⟩ := Option.bind_eq_some_iff.mp hd
  exact ⟨decl, hdecl, hn.of_parent? hdecl, List.mem_of_find?_eq_some hfind⟩

end SourceUnit

/-! ## Forms of inserted text -/

/-- **An argument of a probe**: it evaluates one of the expressions, or is the size of a type. -/
inductive Argument (u : SourceUnit) (exprs : List Node) : String → Prop where
  | value {e : Node} (mem : e ∈ exprs) : Argument u exprs (u.text e)
  | address {e : Node} (mem : e ∈ exprs) : Argument u exprs ("&(" ++ u.text e ++ ")")
  | past {arg : String} (of : Argument u exprs arg) : Argument u exprs ("(" ++ arg ++ ")+1")
  | operand {cast : String} {e : Node} (known : cast ∈ ["long long", "unsigned long long"])
      (mem : e ∈ exprs) :
      Argument u exprs ("(" ++ cast ++ ")(" ++ Observation.operandText u e ++ ")")
  | size {type : String} (quoted : type ∈ u.quotes) :
      Argument u exprs ("(int)sizeof(" ++ type ++ ")")

/-- The texts that are the same for every match. -/
def fixedTexts : List String :=
  [Braces.opening, Braces.closing, Tracing.braceEnd, Hooks.opener, "MUT_"]

/-- The kinds of markers that stand alone, with their categories. -/
def markerKinds : List (Category × String) :=
  [(.brace, "BRACESTART"), (.varDecl, "VARDECL"), (.funcEnter, "FUNCTIONENTER"),
    (.ptr, "VARREF_ASSIGN"), (.array, "VARREF_ARRAY"), (.ptrIndex, "VARREF_POINTERINDEX"),
    (.init, "VARREF_INIT")]

/-- The kinds of markers with a probe, with their categories. -/
def probeKinds : List (Category × String) :=
  [(.inst, "INSERTIONSITE"), (.ptr, "VARREF_POINTER"), (.mem, "VARREF_MEMORY"), (.var, "VARDECL"),
    (.int, "VARREF_INTEGER")]

/-- What stands before and behind the number in the formats of probes. -/
def probeFormats : List (String × String) :=
  [("INST:", ""), ("PTR:", ":%p"), ("MEM:", ":%p:%p"), ("LOCAL:", ":%p:%d"), ("GLOBAL:", ":%p:%d"),
    ("INT:", ":%llu:%llu"), ("INT:", ":%llu:%lld"), ("INT:", ":%lld:%llu"),
    ("INT:", ":%lld:%lld")]

/-- **The forms of inserted text**, with the expressions that it evaluates and the numbers that it
was made with. -/
inductive Inserted (u : SourceUnit) : List Node → List Draw → String → Prop where
  | fixed {text : String} (known : text ∈ fixedTexts) : Inserted u [] [] text
  | marked {c : Category} {kind lead : String} {fields : List String} (id : Nat)
      (known : (c, kind) ∈ markerKinds) (leads : lead ∈ ["", "\n"])
      (quoted : ∀ f ∈ fields, f ∈ u.quotes) :
      Inserted u [] [⟨c, id⟩] (lead ++ marker (some id) kind fields ++ "\n")
  | probed {exprs : List Node} {c : Category} {kind lead before behind : String}
      {fields args : List String} (id : Nat) (known : (c, kind) ∈ probeKinds)
      (leads : lead ∈ ["", "\n"]) (format : (before, behind) ∈ probeFormats)
      (quoted : ∀ f ∈ fields, f ∈ u.quotes) (within : ∀ e ∈ exprs, e ∈ u.root.walk)
      (evaluated : ∀ arg ∈ args, Argument u exprs arg) :
      Inserted u exprs [⟨c, id⟩]
        (lead ++ Observation.markedProbe c id kind fields (before ++ toString id ++ behind) args)
  | closing {h : Hooks.Hook} (id : Nat) (known : h ∈ Hooks.all) :
      Inserted u [] [⟨h.category, id⟩] (Hooks.closerStem h ++ toString id ++ ")")
  | forwarded {name : String} (quoted : name ∈ u.quotes) :
      Inserted u [] [] (Relocation.forwarding name)
  | moved {name : String} {type : CType} (id : Nat) (isInitialized : Bool)
      (quoted : name ∈ u.quotes) (element : Relocation.elementSpelling type ∈ u.quotes)
      (innermost : type.innermost.unqualified.render ∈ u.quotes) :
      Inserted u [] [⟨.heap, id⟩] (Relocation.heapCopy id name type isInitialized)
  | freed (calls : List (Nat × String × CType))
      (quoted : ∀ call ∈ calls, call.2.1 ∈ u.quotes ∧
        Relocation.elementSpelling call.2.2 ∈ u.quotes) :
      Inserted u [] (calls.map fun call => ⟨.free, call.1⟩)
        (String.join (calls.map fun call => Relocation.freeCall call.1 call.2.1 call.2.2))

/-- **The forms of lines at the start of a file**, by the rule that writes them. -/
inductive Heading : String → String → Prop where
  | flags (lines : List (Category × Nat)) (isDefinition : Bool)
      (known : ∀ line ∈ lines, line.1 ∈ Tracing.flagCategories) :
      Heading Tracing.flagRule.name (String.join (lines.map fun line =>
        if isDefinition then Probe.flagDefinition line.1 line.2
        else Probe.flagDeclaration line.1 line.2))
  | hooks (lines : List (Hooks.Hook × Nat)) (known : ∀ line ∈ lines, line.1 ∈ Hooks.all) :
      Heading Hooks.definitionRule.name (String.join (lines.map fun line =>
        "#define " ++ line.1.tag ++ toString line.2 ++ " \n"))
  | helpers {helpers : List (String × String)} (count : Option Nat)
      (known : ∀ helper ∈ helpers, helper ∈ Relocation.helperMacros) :
      Heading Relocation.helperRule.name (Relocation.header ++
        String.join (helpers.map fun helper => helper.2 ++ "\n") ++
          ((count.map (Probe.flagDefinition .free)).getD ""))

/-- **What evaluating an edit text comes to**: nothing, with no number drawn, or a text in one of
the forms, for such expressions. -/
def Wrote (u : SourceUnit) (E : List Node → Prop) : Option String → List Draw → Prop
  | none, draws => draws = []
  | some text, draws => ∃ exprs, E exprs ∧ Inserted u exprs draws text

theorem Wrote.mono (h : ∀ exprs, E exprs → F exprs) : ∀ text? draws, Wrote u E text? draws →
    Wrote u F text? draws
  | none, _, hnone => hnone
  | some _, _, ⟨exprs, hE, hinserted⟩ => ⟨exprs, h exprs hE, hinserted⟩

/-- What evaluating a heading comes to: nothing, or lines of the rule; no number is drawn. -/
def WroteHeading (ruleName : String) (text? : Option String) (draws : List Draw) : Prop :=
  draws = [] ∧ ∀ text, text? = some text → Heading ruleName text

end ProbeWeaver
