import ProbeWeaver.Proofs.Passes.Integers
import ProbeWeaver.Proofs.Text.Balance

/-!
# Proofs/Passes/Balance — texts with their braces in pairs

Only the braces pass puts an opening brace in one place and the closing one in another.  Every text
of another rule has its braces in pairs, as long as what it quotes from the file has
(`Rule.Listed.keepsPairs`).
-/

namespace ProbeWeaver

open Text
open Node (PlaceOf)

variable {t : Tree} {u : SourceUnit} {cx : EditContext} {m : Match} {r : Rule} {n e : Node}

/-! ## What is quoted -/

/-- The spellings of a construct that rules may quote, its own text apart. -/
def SourceUnit.spellingsAt (u : SourceUnit) (n : Node) : List String :=
  Tracing.resultSpelling u n :: ((n.definedName? u.source).toList ++
    (((u.printedType? n).map (·.render)).toList ++ ((u.declarators n).flatMap declaratorSpellings ++
      n.children.flatMap fun l => n.children.flatMap fun r => u.convertedSpellings n l r)))

/-- **The file quotes braces in pairs**: each of its constructs has its braces in pairs, and so have
the types and names that rules spell out. -/
structure SourceUnit.QuotesPairs (u : SourceUnit) : Prop where
  constructs : ∀ n ∈ u.root.walk, n.isNamed = true →
    IsBalanced (u.text n) ∧ IsBalanced (Observation.operandText u n)
  spellings : ∀ n ∈ u.root.walk, ∀ s ∈ u.spellingsAt n, IsBalanced s

/-- What has a type is no token. -/
theorem SourceUnit.isNamed_of_typeOf {type : CType} (h : u.typeOf n = some type) :
    n.isNamed = true := by
  rw [Node.isNamed]
  cases hkind : n.kind with
  | token spelling =>
    rw [typeOf, NameTable.typeOf, hkind] at h
    contradiction
  | _ => rfl

namespace SourceUnit.QuotesPairs

variable (h : u.QuotesPairs) (hu : u.root = .root t)

include h hu

theorem text (hn : n.PlaceOf t) (hnamed : n.isNamed = true) : IsBalanced (u.text n) :=
  (h.constructs n (hu ▸ hn.mem_walk) hnamed).1

theorem spelling (hn : n.PlaceOf t) {s : String} (hs : s ∈ u.spellingsAt n) : IsBalanced s :=
  h.spellings n (hu ▸ hn.mem_walk) s hs

/-- The type and the text of an expression. -/
theorem printed {type : CType} (hn : n.PlaceOf t) (htype : u.printedType? n = some type) :
    IsBalanced type.render ∧ IsBalanced (u.text n) := by
  obtain ⟨type', htype', -⟩ := Option.map_eq_some_iff.mp htype
  exact ⟨h.spelling hu hn (by simp [spellingsAt, htype]),
    h.text hu hn (isNamed_of_typeOf htype')⟩

theorem reported {type : CType} (hn : n.PlaceOf t)
    (htype : Observation.reportedType? u n = some type) :
    IsBalanced type.render ∧ IsBalanced (u.text n) :=
  h.printed hu hn (Option.filter_eq_some_iff.mp htype).1

/-- The name of a declarator, and the spellings of its type. -/
theorem declarator {d : Declarator} (hn : n.PlaceOf t) (hd : d ∈ u.declarators n) :
    IsBalanced (u.text d.name) ∧ ∀ s ∈ declaratorSpellings d, IsBalanced s := by
  refine ⟨h.text hu (Declarator.placeOf_name hn hd) ?_, fun s hs => ?_⟩
  · have hkinds : ∀ k ∈ Declarator.nameKinds, k.isNamed = true := by decide
    exact hkinds _ (Declarator.kind_name hd)
  · refine h.spelling hu hn ?_
    simp only [spellingsAt, List.mem_cons, List.mem_append, List.mem_flatMap]
    exact .inr (.inr (.inr (.inl ⟨d, hd, hs⟩)))

theorem declared {d : Declarator} (hn : n.PlaceOf t) (hd : u.declarator? n = some d) :
    IsBalanced (u.text d.name) ∧ ∀ s ∈ declaratorSpellings d, IsBalanced s := by
  obtain ⟨decl, -, hdecl, hmem⟩ := exists_mem_declarators hn hd
  exact h.declarator hu hdecl hmem

/-- The operands of an expression, and the types that they are reported in. -/
theorem operands {op : String} {left right : Node} {l r : CType} (hn : n.PlaceOf t)
    (hleft : left ∈ n.children) (hright : right ∈ n.children) (hop : u.operator? n = some op)
    (htypes : Observation.convertedTypes? u op n left right = some (l, r)) :
    IsBalanced l.render ∧ IsBalanced (Observation.operandText u left) ∧ IsBalanced r.render ∧
      IsBalanced (Observation.operandText u right) := by
  have hspellings : u.convertedSpellings n left right = [l.render, r.render] := by
    rw [convertedSpellings, hop]
    dsimp only
    rw [htypes]
  have hmem (s : String) (hs : s ∈ u.convertedSpellings n left right) : IsBalanced s := by
    refine h.spelling hu hn ?_
    simp only [spellingsAt, List.mem_cons, List.mem_append, List.mem_flatMap]
    exact .inr (.inr (.inr (.inr ⟨left, hleft, right, hright, hs⟩)))
  rw [hspellings] at hmem
  obtain ⟨declaredLeft, hleftType, htypes⟩ := Option.bind_eq_some_iff.mp htypes
  obtain ⟨declaredRight, hrightType, -⟩ := Option.bind_eq_some_iff.mp htypes
  have hoperand {x : Node} {type : CType} (hx : x ∈ n.children) (htype : u.typeOf x = some type) :
      IsBalanced (Observation.operandText u x) :=
    (h.constructs x (hu ▸ (hn.of_mem_children hx).mem_walk) (isNamed_of_typeOf htype)).2
  exact ⟨hmem _ List.mem_cons_self, hoperand hleft hleftType, hmem _ (.tail _ (.head _)),
    hoperand hright hrightType⟩

end SourceUnit.QuotesPairs

/-! ## Markers and probes -/

theorem isBalanced_marker {id : Option Nat} {kind : String} {fields : List String}
    (hkind : IsBalanced kind) (hfields : ∀ f ∈ fields, IsBalanced f) :
    IsBalanced (marker id kind fields) := by
  have hid : IsBalanced ((id.map toString).getD "") := by
    cases id with
    | none => decide
    | some id => exact isBalanced_toString id
  have hjoin : IsBalanced (String.join (fields.map (· ++ ":"))) := isBalanced_join fun s hs => by
    obtain ⟨f, hf, rfl⟩ := List.mem_map.mp hs
    exact (hfields f hf).append (by decide)
  have hcolon : IsBalanced ":" := by decide
  exact ((((((by decide : IsBalanced "/*I:ID").append hid).append hcolon).append hkind).append
    hcolon).append hjoin).append (by decide)

theorem isBalanced_categoryName (c : Category) : IsBalanced c.name := by
  cases c <;> decide

theorem isBalanced_statement (c : Category) (id : Nat) {format : String} {args : List String}
    (hformat : IsBalanced format) (hargs : ∀ arg ∈ args, IsBalanced arg) :
    IsBalanced (Probe.statement c id format args) := by
  have hflag : IsBalanced (Probe.flagName c ++ "[" ++ toString id ++ "]") :=
    ((((by decide : IsBalanced "print_flag_").append (isBalanced_categoryName c)).append
      (by decide)).append (isBalanced_toString id)).append (by decide)
  have hjoin : IsBalanced (String.join (args.map ("," ++ ·))) := isBalanced_join fun s hs => by
    obtain ⟨arg, harg, rfl⟩ := List.mem_map.mp hs
    exact (by decide : IsBalanced ",").append (hargs arg harg)
  have hparts (flag format args : String) :
      "if (" ++ flag ++ "!=2) \x7bprintf(\"" ++ format ++ "\\n\"" ++ args ++ ");" ++ flag ++
          "++;\x7d\n" =
        "if (" ++ flag ++ "!=2) " ++ ("\x7b" ++ ("printf(\"" ++ format ++ "\\n\"" ++ args ++ ");" ++
          flag ++ "++;" ++ "\x7d")) ++ "\n" := by
    have hopen : "!=2) \x7bprintf(\"" = "!=2) " ++ ("\x7b" ++ "printf(\"") := by decide
    have hclose : "++;\x7d\n" = "++;" ++ ("\x7d" ++ "\n") := by decide
    rw [hopen, hclose]
    simp only [String.append_assoc]
  rw [Probe.statement, hparts]
  refine ((((by decide : IsBalanced "if (").append hflag).append (by decide)).append
    (IsBalanced.braced ?_)).append (by decide)
  exact (((((((by decide : IsBalanced "printf(\"").append hformat).append (by decide)).append
    hjoin).append (by decide)).append hflag).append (by decide))

/-! ## Notices -/

namespace Rule.Listed

variable {name : String}

/-- **A part of a construct that is quoted by name** is an identifier. -/
theorem kind_of_quoted (h : r.Listed) (hu : u.root = .root t) (ho : r.Offers u m)
    (hname : name = "idx" ∨ name = "offset") (he : m.node? name = some e) : e.kind = .identifier := by
  have hroot : name ≠ "root" := by
    rintro rfl
    exact absurd hname (by decide)
  have hmem := h.mem_quoting (by rcases hname with rfl | rfl <;> decide) (ho.mentions hu hroot he)
  rcases hname with rfl | rfl
  · obtain rfl : r = Observation.arrayIndexRule := by simpa [quoting] using hmem
    have hfinder : ("idx", Observation.variableIn "index") ∈ Observation.arrayIndexRule.finders :=
      .tail _ (.tail _ (.head _))
    obtain ⟨m₀, -, hnode⟩ := ho.of_mem_finders hfinder (by decide)
    obtain ⟨index, -, hlead⟩ := Option.bind_eq_some_iff.mp (hnode.symm.trans he)
    exact beq_iff_eq.mp (List.mem_filter.mp (List.mem_of_find?_eq_some hlead)).2
  · obtain rfl : r = Observation.pointerIndexRule := by simpa [quoting] using hmem
    have hfinder : ("offset", Observation.shadowOffset) ∈ Observation.pointerIndexRule.finders :=
      .tail _ (.head _)
    obtain ⟨m₀, -, hnode⟩ := ho.of_mem_finders hfinder (by decide)
    obtain ⟨right, -, hshadow⟩ := Option.bind_eq_some_iff.mp (hnode.symm.trans he)
    dsimp only at hshadow
    split at hshadow
    · next hkind => exact Option.some.inj hshadow ▸ hkind.1
    · contradiction

end Rule.Listed

theorem forall_mem_pair {α : Type} {P : α → Prop} {a b : α} :
    (∀ x ∈ [a, b], P x) ↔ P a ∧ P b := by
  rw [List.forall_mem_cons, List.forall_mem_singleton]

namespace Notice

theorem isBalanced_kind (n : Notice) : IsBalanced n.kind := by
  cases n <;> rw [kind] <;> decide

theorem isBalanced_lead (n : Notice) : IsBalanced n.lead := by
  have hleads : IsBalanced "\n" ∧ IsBalanced "" := by decide
  cases n <;> first | exact hleads.1 | exact hleads.2

section Quoting

variable {n : Notice} (hr : r.Listed) (hu : u.root = .root t) (ho : r.Offers u m)
  (hfilters : ∀ f ∈ r.filters, f m u = true) (hquotes : u.QuotesPairs)

include hr hu ho hfilters hquotes

/-- **What a notice quotes** has its braces in pairs. -/
theorem isBalanced_fields (about : n.IsAbout u m) : ∀ f ∈ n.fields u, IsBalanced f := by
  have hwithin := (hr.insertive.of_offers hu ho).1
  have hquoted {name : String} {e : Node} (he : m.node? name = some e)
      (hname : name = "idx" ∨ name = "offset") : IsBalanced (u.text e) :=
    hquotes.text hu (hwithin.node? he) (by rw [Node.isNamed, hr.kind_of_quoted hu ho hname he]; rfl)
  cases n with
  | blockStart | blockEnd | site => exact fun f hf => absurd hf List.not_mem_nil
  | entry definition name =>
    obtain ⟨rfl, hdefined⟩ := about
    refine forall_mem_pair.mpr ⟨hquotes.spelling hu hwithin.root List.mem_cons_self, ?_⟩
    exact hquotes.spelling hu hwithin.root (by simp [SourceUnit.spellingsAt, hdefined])
  | declared d | «variable» scope d =>
    obtain ⟨hname, hspellings⟩ := hquotes.declared hu hwithin.root about
    exact forall_mem_pair.mpr ⟨hspellings _ (.head _), hname⟩
  | assigned e type | pointer e type | object e type =>
    obtain ⟨rfl, htype⟩ := about
    exact forall_mem_pair.mpr (hquotes.reported hu hwithin.root htype)
  | pointee e type =>
    exact forall_mem_pair.mpr (hquotes.reported hu (hwithin.node? about.1) about.2)
  | operands op leftType rightType left right =>
    obtain ⟨hop, hleft, hright, htypes⟩ := about
    obtain ⟨hops, hl, hr⟩ := hr.operands hu ho hfilters hleft hright hop
    obtain ⟨hlt, hlx, hrt, hrx⟩ := hquotes.operands hu hwithin.root hl.mem hr.mem hop htypes
    have hplain : ∀ op ∈ Hooks.integerOperators, IsBalanced op := by decide
    simpa [fields] using ⟨hlt, hlx, hrt, hrx, hplain op hops⟩
  | subscript type var idx =>
    obtain ⟨hvar, hidx, htype⟩ := about
    have hreported := hquotes.reported hu (hwithin.node? hvar) htype
    simpa [fields] using ⟨hreported.1, hreported.2, hquoted hidx (.inl rfl)⟩
  | offset e =>
    exact forall_mem_pair.mpr ⟨by decide, hquoted about (.inr rfl)⟩
  | condition e type =>
    obtain ⟨rfl, htype⟩ := about
    exact forall_mem_pair.mpr (hquotes.printed hu hwithin.root htype)
  | moved d isInitialized =>
    obtain ⟨hname, hspellings⟩ := hquotes.declared hu hwithin.root about
    simpa [fields] using ⟨hspellings _ (.tail _ (.head _)), hname, isBalanced_toString _⟩
  | freed d =>
    obtain ⟨lottery, hd⟩ := about
    obtain ⟨decl, hdecl, hd, -⟩ := Relocation.exists_mem_arraysInScope hwithin.root hd
    obtain ⟨hname, hspellings⟩ := hquotes.declarator hu hdecl hd
    exact forall_mem_pair.mpr ⟨hspellings _ (.tail _ (.head _)), hname⟩

/-- **What its probe evaluates** has its braces in pairs. -/
theorem isBalanced_args (about : n.IsAbout u m) :
    ∀ a ∈ n.args, IsBalanced (a.spelling u) := by
  have hfields := isBalanced_fields hr hu ho hfilters hquotes about
  have hinside {x front back : String} (hx : IsBalanced x) (hfront : IsBalanced front)
      (hback : IsBalanced back) : IsBalanced (front ++ x ++ back) := (hfront.append hx).append hback
  have haddress {x : String} (hx : IsBalanced x) : IsBalanced ("&(" ++ x ++ ")") :=
    hinside hx (by decide) (by decide)
  have hpast {x : String} (hx : IsBalanced x) : IsBalanced ("(" ++ x ++ ")+1") :=
    hinside hx (by decide) (by decide)
  cases n with
  | pointer e type =>
    exact List.forall_mem_singleton.mpr (hfields _ (.tail _ (.head _)))
  | object e type =>
    have he := hfields _ (.tail _ (.head _))
    exact forall_mem_pair.mpr ⟨haddress he, hpast (haddress he)⟩
  | pointee e type =>
    have he := hfields _ (.tail _ (.head _))
    exact forall_mem_pair.mpr ⟨he, hpast he⟩
  | «variable» scope d =>
    refine forall_mem_pair.mpr ⟨haddress (hfields _ (.tail _ (.head _))), ?_⟩
    exact hinside (hfields _ (.head _)) (by decide) (by decide)
  | operands op leftType rightType left right =>
    have hcast (type : String) {e : Node} (he : IsBalanced (Observation.operandText u e)) :
        IsBalanced ((Evaluated.operand (Observation.printConversion type).2 e).spelling u) := by
      refine hinside he ?_ (by decide)
      rw [Observation.printConversion]
      split <;> decide
    exact forall_mem_pair.mpr ⟨hcast _ (hfields _ (.tail _ (.head _))),
      hcast _ (hfields _ (.tail _ (.tail _ (.tail _ (.head _)))))⟩
  | blockStart | blockEnd | site | entry | declared | assigned | subscript | offset | condition | moved
  | freed => exact fun a ha => absurd ha List.not_mem_nil

/-- **The text of a notice** has its braces in pairs. -/
theorem isBalanced_text (about : n.IsAbout u m) (hscope : n.IsScoped) (id : Nat) :
    IsBalanced (n.text u id) := by
  have hfields := isBalanced_fields hr hu ho hfilters hquotes about
  have hargs : ∀ arg ∈ n.args.map (·.spelling u), IsBalanced arg :=
    List.forall_mem_map.mpr (isBalanced_args hr hu ho hfilters hquotes about)
  have hid := isBalanced_toString id
  have hnumbered {front back : String} (hfront : IsBalanced front) (hback : IsBalanced back) :
      IsBalanced (front ++ toString id ++ back) := (hfront.append hid).append hback
  have hline : IsBalanced "\n" := by decide
  have htail : IsBalanced (n.tail u id) := by
    cases n with
    | site =>
      exact isBalanced_statement .inst id ((by decide : IsBalanced "INST:").append hid) hargs
    | pointer e type =>
      exact isBalanced_statement .ptr id (hnumbered (by decide) (by decide)) hargs
    | object e type | pointee e type =>
      exact isBalanced_statement .mem id (hnumbered (by decide) (by decide)) hargs
    | «variable» scope d =>
      have hfront : IsBalanced (scope ++ ":") := by rcases hscope with rfl | rfl <;> decide
      exact isBalanced_statement .var id (hnumbered hfront (by decide)) hargs
    | operands op leftType rightType left right =>
      have hformat (type : String) : IsBalanced (Observation.printConversion type).1 := by
        rw [Observation.printConversion]
        split <;> decide
      exact isBalanced_statement .int id (((hnumbered (by decide) (by decide)).append
        (hformat _)).append (by decide) |>.append (hformat _)) hargs
    | moved d isInitialized =>
      obtain ⟨hname, hspellings⟩ := hquotes.declared hu (hr.insertive.of_offers hu ho).1.root about
      have hending : IsBalanced (if isInitialized then "" else "_uninit") := by
        cases isInitialized <;> decide
      have hcall : IsBalanced ("\ninit_arr_" ++ toString d.type.arrayRank ++
          (if isInitialized then "" else "_uninit") ++ "(") :=
        (((by decide : IsBalanced "\ninit_arr_").append (isBalanced_toString _)).append
          hending).append (by decide)
      have hnames := ((hcall.append hname).append (by decide : IsBalanced ", MUT_")).append hname
      exact ((hnames.append (by decide : IsBalanced ", ")).append
        (hspellings _ (.tail _ (.tail _ (.head _))))).append (by decide)
    | freed d =>
      have hname := hfields _ (.tail _ (.head _))
      have hcall : IsBalanced ("\nfree_" ++ toString d.type.arrayRank ++ "(") :=
        ((by decide : IsBalanced "\nfree_").append (isBalanced_toString _)).append (by decide)
      exact (((hcall.append hname).append (by decide : IsBalanced ", MUT_")).append hname).append
        (by decide)
    | blockStart | blockEnd | entry | declared | assigned | subscript | offset | condition =>
      exact hline
  exact n.isBalanced_lead.append ((isBalanced_marker n.isBalanced_kind hfields).append htail)

end Quoting

end Notice

/-! ## Lines at the start of a file -/

/-- **The lines of late rules** have their braces in pairs. -/
theorem Heading.isBalanced {ruleName text : String} (h : Heading ruleName text) :
    IsBalanced text := by
  have hnumbered {front back : String} (n : Nat) (hfront : IsBalanced front)
      (hback : IsBalanced back) : IsBalanced (front ++ toString n ++ back) :=
    (hfront.append (isBalanced_toString n)).append hback
  have hflag {lead : String} (hlead : IsBalanced lead) (c : Category) (n : Nat) :
      IsBalanced (lead ++ Probe.flagName c ++ "[" ++ toString n ++ "];\n") :=
    hnumbered n ((hlead.append ((by decide : IsBalanced "print_flag_").append
      (isBalanced_categoryName c))).append (by decide)) (by decide)
  cases h with
  | flags lines isDefinition known =>
    refine isBalanced_join fun s hs => ?_
    obtain ⟨line, -, rfl⟩ := List.mem_map.mp hs
    split
    · exact hflag (by decide) line.1 line.2
    · exact hflag (by decide) line.1 line.2
  | hooks lines known =>
    refine isBalanced_join fun s hs => ?_
    obtain ⟨line, hline, rfl⟩ := List.mem_map.mp hs
    have htags : ∀ h ∈ Hooks.all, IsBalanced ("#define " ++ h.tag) := by decide
    exact hnumbered line.2 (htags _ (known line hline)) (by decide)
  | @helpers helpers count known =>
    have hmacros : ∀ helper ∈ Relocation.helperMacros, IsBalanced (helper.2 ++ "\n") := by
      decide +kernel
    have hheader : IsBalanced Relocation.header := by decide
    have hlines : IsBalanced (String.join (helpers.map fun helper => helper.2 ++ "\n")) :=
      isBalanced_join fun s hs => by
        obtain ⟨helper, hhelper, rfl⟩ := List.mem_map.mp hs
        exact hmacros helper (known helper hhelper)
    have hflags : IsBalanced ((count.map (Probe.flagDefinition .free)).getD "") := by
      cases count with
      | none => decide
      | some n => exact hflag (by decide) .free n
    exact (hheader.append hlines).append hflags

/-! ## Rules -/

/-- What evaluating an edit text comes to: nothing, or a text with its braces in pairs. -/
def Evenly (text? : Option String) (_ : List Draw) : Prop :=
  ∀ text, text? = some text → IsBalanced text

theorem evenly_of_isBalanced {text : String} {draws : List Draw} (h : IsBalanced text) :
    Evenly (some text) draws :=
  fun _ htext => Option.some.inj htext ▸ h

namespace Rule

/-- **The texts of the rule have their braces in pairs** in the match. -/
def KeepsPairs (r : Rule) (u : SourceUnit) (m : Match) : Prop :=
  ∀ e ∈ r.edits, ∀ cx : EditContext, cx.unit = u → Eval.Gives (e.makeText cx m) Evenly

/-- **Every rule but those of braces** keeps braces in pairs, as long as the file quotes them so. -/
theorem Listed.keepsPairs (h : r.Listed) (hname : r.name ∉ PassKind.ruleNames .braces)
    (hu : u.root = .root t) (ho : r.Offers u m) (hfilters : ∀ f ∈ r.filters, f m u = true)
    (hquotes : u.QuotesPairs) : r.KeepsPairs u m := by
  have hwithin := (h.insertive.of_offers hu ho).1
  have hnoticed (text? : Option String) (draws : List Draw) (hnotices : Noticed u m text? draws) :
      Evenly text? draws := by
    intro text htext
    obtain ⟨ns, about, rfl⟩ := hnotices text htext
    refine isBalanced_join fun s hs => ?_
    obtain ⟨n, hn, rfl⟩ := List.mem_map.mp hs
    exact Notice.isBalanced_text h hu ho hfilters hquotes (about n hn).1 (about n hn).2 n.2
  have hsingle {anchor : Anchor} {makeText : EditText} {edits : List EditTemplate}
      (hedits : edits = [⟨anchor, makeText⟩])
      (hgives : ∀ cx m, Eval.Gives (makeText cx m) (Noticed cx.unit m)) : ∀ e ∈ edits,
        ∀ cx : EditContext, cx.unit = u → Eval.Gives (e.makeText cx m) Evenly := by
    rintro e he cx rfl
    obtain rfl := List.mem_singleton.mp (hedits ▸ he)
    exact (hgives cx m).mono hnoticed
  have hliteral {text : String} (htext : IsBalanced text) (cx : EditContext) :
      Eval.Gives (EditText.literal text cx m) Evenly :=
    Eval.gives_pure (evenly_of_isBalanced htext)
  have hcloser {hook : Hooks.Hook} (hhook : hook ∈ Hooks.all) (cx : EditContext) :
      Eval.Gives (Hooks.closer hook cx m) Evenly := by
    have hstems : ∀ h ∈ Hooks.all, IsBalanced (Hooks.closerStem h) := by decide
    exact (Eval.gives_draw hook.category).bind fun id draws _ => Eval.gives_pure
      (evenly_of_isBalanced (((hstems hook hhook).append (isBalanced_toString id)).append
        (by decide)))
  have hhooked {edits : List EditTemplate} {name : String} {hook : Hooks.Hook}
      (hedits : edits = [⟨.before name, .literal Hooks.opener⟩, ⟨.after name, Hooks.closer hook⟩])
      (hhook : hook ∈ Hooks.all) : ∀ e ∈ edits,
        ∀ cx : EditContext, cx.unit = u → Eval.Gives (e.makeText cx m) Evenly := by
    rw [hedits]
    exact forall_mem_pair.mpr ⟨fun cx _ => hliteral (by decide) cx, fun cx _ => hcloser hhook cx⟩
  have hheads (hr : r.Heads) : r.KeepsPairs u m := by
    obtain ⟨makeText, hedits, hgives⟩ := hr
    rw [KeepsPairs, hedits]
    exact List.forall_mem_singleton.mpr fun cx _ => (hgives cx m).mono fun text? draws hwrote text
      htext => (hwrote.2 text htext).isBalanced
  cases h with
  | thenBranch | elseBranch | loopBody => exact absurd (by decide) hname
  | labelled mem =>
    have hnames : ∀ r ∈ Braces.labelSet.rules, r.name ∈ PassKind.ruleNames .braces := by decide
    exact absurd (hnames r mem) hname
  | block =>
    refine forall_mem_pair.mpr ⟨?_, ?_⟩
    · rintro cx rfl
      exact (Tracing.notices_braceStart cx m).mono hnoticed
    · rintro cx rfl
      exact (Tracing.notices_braceEnd cx m).mono hnoticed
  | declaration => exact hsingle rfl Tracing.notices_varDeclMarker
  | site => exact hsingle rfl Tracing.notices_siteProbe
  | entry => exact hsingle rfl Tracing.notices_entryMarker
  | arrayIndex => exact hsingle rfl Observation.notices_arrayReference
  | pointerIndex => exact hsingle rfl Observation.notices_pointerIndexReference
  | memory mem =>
    simp only [Observation.memorySet, RuleSet.rules, List.mem_cons, List.not_mem_nil,
      or_false] at mem
    rcases mem with rfl | rfl | rfl | rfl | rfl
    · exact hsingle rfl (Observation.notices_memoryReference .dereference)
    · exact hsingle rfl (Observation.notices_memoryReference .field)
    · exact hsingle rfl (Observation.notices_memoryReference .subscript)
    · exact hsingle rfl (Observation.notices_variableAddress (.inl rfl))
    · exact hsingle rfl (Observation.notices_variableAddress (.inr rfl))
  | pointer mem =>
    simp only [Observation.pointerSet, RuleSet.rules, List.mem_cons, List.not_mem_nil,
      or_false] at mem
    rcases mem with rfl | rfl | rfl | rfl
    all_goals exact hsingle rfl (Observation.notices_pointerReference _)
  | integer => exact hsingle rfl Observation.notices_integerOperands
  | divider => exact hsingle rfl Observation.notices_integerOperands
  | init => exact hsingle rfl Observation.notices_initReference
  | hookedIndex => exact hhooked rfl (by decide)
  | hookedPointer mem =>
    simp only [Hooks.pointerSet, RuleSet.rules, List.mem_cons, List.not_mem_nil, or_false] at mem
    rcases mem with rfl | rfl
    all_goals exact hhooked rfl (by decide)
  | hookedOperands =>
    have hhooks : ∀ hook ∈ [Hooks.leftHook, Hooks.rightHook], hook ∈ Hooks.all := by decide
    intro e he
    rcases List.mem_append.mp (show e ∈ [_, _] ++ [_, _] from he) with he | he
    · exact hhooked rfl (hhooks _ (.head _)) e he
    · exact hhooked rfl (hhooks _ (.tail _ (.head _))) e he
  | relocation lottery =>
    refine forall_mem_pair.mpr ⟨fun cx _ => hliteral (by decide) cx, ?_⟩
    rintro cx rfl
    refine (Relocation.notices_redeclaration lottery cx m).mono fun text? draws hwrote => ?_
    rcases hwrote with hnotices | ⟨d, hd, rfl⟩
    · exact hnoticed text? draws hnotices
    · have hd := (hquotes.declared hu hwithin.root hd).1
      exact evenly_of_isBalanced (((((by decide : IsBalanced "\n#define ").append hd).append
        (by decide)).append hd).append (by decide))
  | free lottery => exact hsingle rfl (Relocation.notices_freeing lottery)
  | flags => exact hheads (Rule.Listed.flags.heads rfl)
  | definitions => exact hheads (Rule.Listed.definitions.heads rfl)
  | helpers => exact hheads (Rule.Listed.helpers.heads rfl)

end Rule

end ProbeWeaver
