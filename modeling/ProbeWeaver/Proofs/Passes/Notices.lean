import ProbeWeaver.Proofs.Passes.Writes

/-!
# Proofs/Passes/Notices — what each marker reports, and what its probe evaluates

A `Notice` is one marker with the constructs that it reports: its fields, the arguments of the probe
behind it and the text around it are read off those constructs.  Where fields hold colons, a text
alone does not tell how its markers were built; the notices do.

* `Rule.Listed.speaks` — every text of every rule is a row of notices about the match, or holds no
  marker.
-/

namespace ProbeWeaver

open Node (PlaceOf)

variable {t : Tree} {u : SourceUnit} {cx : EditContext} {m : Match} {r : Rule}

/-! ## Arguments of probes -/

/-- **What a probe evaluates** as one argument of its print call. -/
inductive Evaluated where
  | value (e : Node)
  | address (e : Node)
  /-- what lies behind the object at an address -/
  | past (of : Evaluated)
  /-- an operand without its steps, converted -/
  | operand (cast : String) (e : Node)
  /-- the size of the type that a declarator gives its name -/
  | size (d : Declarator)

/-- How the argument is spelled. -/
def Evaluated.spelling (u : SourceUnit) : Evaluated → String
  | .value e => u.text e
  | .address e => "&(" ++ u.text e ++ ")"
  | .past a => "(" ++ a.spelling u ++ ")+1"
  | .operand cast e => "(" ++ cast ++ ")(" ++ Observation.operandText u e ++ ")"
  | .size d => "(int)sizeof(" ++ d.type.withoutVolatile.render ++ ")"

/-! ## Notices -/

/-- **A notice**: one marker, by what it reports. -/
inductive Notice where
  | blockStart
  | blockEnd
  | site
  | entry (definition : Node) (name : String)
  | declared (d : Declarator)
  | assigned (e : Node) (type : CType)
  | pointer (e : Node) (type : CType)
  /-- the memory of an expression -/
  | object (e : Node) (type : CType)
  /-- the memory that a pointer points to -/
  | pointee (e : Node) (type : CType)
  | variable (scope : String) (d : Declarator)
  | operands (op : String) (leftType rightType : CType) (left right : Node)
  | subscript (type : CType) (var idx : Node)
  | offset (e : Node)
  | condition (e : Node) (type : CType)
  | moved (d : Declarator) (isInitialized : Bool)
  | freed (d : Declarator)

namespace Notice

/-- The kind of the marker. -/
def kind : Notice → String
  | .blockStart => "BRACESTART"
  | .blockEnd => "BRACEEND"
  | .site => "INSERTIONSITE"
  | .entry _ _ => "FUNCTIONENTER"
  | .declared _ | .variable _ _ => "VARDECL"
  | .assigned _ _ => "VARREF_ASSIGN"
  | .pointer _ _ => "VARREF_POINTER"
  | .object _ _ | .pointee _ _ => "VARREF_MEMORY"
  | .operands _ _ _ _ _ => "VARREF_INTEGER"
  | .subscript _ _ _ => "VARREF_ARRAY"
  | .offset _ => "VARREF_POINTERINDEX"
  | .condition _ _ => "VARREF_INIT"
  | .moved _ _ => "VARDECLHEAP"
  | .freed _ => "VARREF_FREE"

/-- The number in the marker: the one at hand, but for the end of a block. -/
def number? (id : Nat) : Notice → Option Nat
  | .blockEnd => none
  | _ => some id

/-- **The fields of the marker.** -/
def fields (u : SourceUnit) : Notice → List String
  | .blockStart | .blockEnd | .site => []
  | .entry definition name => [Tracing.resultSpelling u definition, name]
  | .declared d | .variable _ d => [d.type.withoutVolatile.render, u.text d.name]
  | .assigned e type | .pointer e type | .object e type | .pointee e type | .condition e type =>
    [type.render, u.text e]
  | .operands op leftType rightType left right =>
    [leftType.render, Observation.operandText u left, rightType.render,
      Observation.operandText u right, op]
  | .subscript type var idx => [type.render, u.text var, u.text idx]
  | .offset e => ["int", u.text e]
  | .moved d _ => [Relocation.elementSpelling d.type, u.text d.name, toString d.type.arrayRank]
  | .freed d => [Relocation.elementSpelling d.type, u.text d.name]

/-- **The arguments that the probe evaluates.** -/
def args : Notice → List Evaluated
  | .pointer e _ => [.value e]
  | .object e _ => [.address e, .past (.address e)]
  | .pointee e _ => [.value e, .past (.value e)]
  | .variable _ d => [.address d.name, .size d]
  | .operands _ leftType rightType left right =>
    [.operand (Observation.printConversion leftType.render).2 left,
      .operand (Observation.printConversion rightType.render).2 right]
  | _ => []

/-- The category and the format of the probe, if there is one. -/
def probe? (id : Nat) : Notice → Option (Category × String)
  | .site => some (.inst, "INST:" ++ toString id)
  | .pointer _ _ => some (.ptr, "PTR:" ++ toString id ++ ":%p")
  | .object _ _ | .pointee _ _ => some (.mem, "MEM:" ++ toString id ++ ":%p:%p")
  | .variable scope _ => some (.var, scope ++ ":" ++ toString id ++ ":%p:%d")
  | .operands _ leftType rightType _ _ =>
    some (.int, "INT:" ++ toString id ++ ":" ++ (Observation.printConversion leftType.render).1 ++
      ":" ++ (Observation.printConversion rightType.render).1)
  | _ => none

/-- What stands in front of the marker. -/
def lead : Notice → String
  | .blockStart | .blockEnd | .site | .variable _ _ | .moved _ _ => "\n"
  | _ => ""

/-- What stands behind the marker: its probe, a call of a helper, or the end of the line. -/
def tail (u : SourceUnit) (id : Nat) : Notice → String
  | .moved d isInitialized =>
    "\ninit_arr_" ++ toString d.type.arrayRank ++ (if isInitialized then "" else "_uninit") ++ "(" ++
      u.text d.name ++ ", MUT_" ++ u.text d.name ++ ", " ++ d.type.innermost.unqualified.render ++ ")"
  | .freed d =>
    "\nfree_" ++ toString d.type.arrayRank ++ "(" ++ u.text d.name ++ ", MUT_" ++ u.text d.name ++
      ");\n"
  | n =>
    match n.probe? id with
    | some (c, format) => Probe.statement c id format (n.args.map (·.spelling u))
    | none => "\n"

/-- **The text of a notice.** -/
def text (u : SourceUnit) (id : Nat) (n : Notice) : String :=
  n.lead ++ (marker (n.number? id) n.kind (n.fields u) ++ n.tail u id)

theorem text_moved (u : SourceUnit) (id : Nat) (d : Declarator) (isInitialized : Bool) :
    (moved d isInitialized).text u id =
      Relocation.heapCopy id (u.text d.name) d.type isInitialized := by
  have hassoc (head rank ending name inner : String) :
      "\n" ++ (head ++ ("\ninit_arr_" ++ rank ++ ending ++ "(" ++ name ++ ", MUT_" ++ name ++ ", " ++
        inner ++ ")")) =
      "\n" ++ head ++ "\ninit_arr_" ++ rank ++ ending ++ "(" ++ name ++ ", MUT_" ++ name ++ ", " ++
        inner ++ ")" := by
    simp only [String.append_assoc]
  exact hassoc _ _ _ _ _

theorem text_freed (u : SourceUnit) (id : Nat) (d : Declarator) :
    (freed d).text u id = Relocation.freeCall id (u.text d.name) d.type := by
  have hassoc (head rank name : String) :
      "" ++ (head ++ ("\nfree_" ++ rank ++ "(" ++ name ++ ", MUT_" ++ name ++ ");\n")) =
        head ++ "\nfree_" ++ rank ++ "(" ++ name ++ ", MUT_" ++ name ++ ");\n" := by
    simp only [String.append_assoc, String.empty_append]
  exact hassoc _ _ _

/-- **The notice is about the match**: it reports the construct that was found, or what the match
names, in the types that the file gives them. -/
def IsAbout (u : SourceUnit) (m : Match) : Notice → Prop
  | .blockStart | .blockEnd | .site => True
  | .entry definition name => definition = m.root ∧ definition.definedName? u.source = some name
  | .declared d | .variable _ d | .moved d _ => u.declarator? m.root = some d
  | .assigned e type | .pointer e type | .object e type =>
    e = m.root ∧ Observation.reportedType? u e = some type
  | .pointee e type => m.node? "arg" = some e ∧ Observation.reportedType? u e = some type
  | .operands op leftType rightType left right =>
    u.operator? m.root = some op ∧ m.node? "left" = some left ∧ m.node? "right" = some right ∧
      Observation.convertedTypes? u op m.root left right = some (leftType, rightType)
  | .subscript type var idx =>
    m.node? "var" = some var ∧ m.node? "idx" = some idx ∧
      Observation.reportedType? u var = some type
  | .offset e => m.node? "offset" = some e
  | .condition e type => e = m.root ∧ u.printedType? e = some type
  | .freed d => ∃ lottery, d ∈ Relocation.arraysInScope u lottery m.root

/-- The scope of a variable's probe is one of two. -/
def IsScoped : Notice → Prop
  | .variable scope _ => scope = "LOCAL" ∨ scope = "GLOBAL"
  | _ => True

end Notice

/-- **The text of notices** in a row, each with the number at hand for it. -/
def noticeText (u : SourceUnit) (notices : List (Notice × Nat)) : String :=
  String.join (notices.map fun n => n.1.text u n.2)

theorem noticeText_singleton (u : SourceUnit) (n : Notice) (id : Nat) :
    noticeText u [(n, id)] = n.text u id := by
  rw [noticeText, List.map_singleton, String.join_cons, String.join_nil, String.append_empty]

/-! ## Texts of rules -/

/-- The texts without a marker that are the same for every match. -/
def unmarkedTexts : List String := [Braces.opening, Braces.closing, Hooks.opener, "MUT_"]

/-- **A text of a rule in a match announces notices**: it is these notices in a row, or it has none
and is one of the texts without a marker. -/
inductive Rule.Announces (r : Rule) (u : SourceUnit) (m : Match) :
    String → List (Notice × Nat) → Prop where
  | notices {ns : List (Notice × Nat)} (about : ∀ n ∈ ns, n.1.IsAbout u m) :
      Announces r u m (noticeText u ns) ns
  | unmarked {text : String} (known : text ∈ unmarkedTexts) : Announces r u m text []
  | closer {h : Hooks.Hook} (id : Nat) (known : h ∈ Hooks.all) :
      Announces r u m (Hooks.closerStem h ++ toString id ++ ")") []
  | forwarding {d : Declarator} (declares : u.declarator? m.root = some d) :
      Announces r u m (Relocation.forwarding (u.text d.name)) []
  | heading {text : String} (form : Heading r.name text) : Announces r u m text []

/-- The notices of a text are about the match. -/
theorem Rule.Announces.isAbout {text : String} {ns : List (Notice × Nat)} {n : Notice × Nat}
    (h : r.Announces u m text ns) (hn : n ∈ ns) : n.1.IsAbout u m := by
  cases h with
  | notices about => exact about n hn
  | unmarked | closer | forwarding | heading => exact absurd hn List.not_mem_nil

/-- What evaluating an edit text comes to: nothing, or a text that announces notices. -/
def Rule.Announced (r : Rule) (u : SourceUnit) (m : Match) (text? : Option String)
    (_ : List Draw) : Prop :=
  ∀ text, text? = some text → ∃ ns, r.Announces u m text ns

/-- What evaluating an edit text comes to: nothing, or a text that is notices about the match. -/
def Noticed (u : SourceUnit) (m : Match) (text? : Option String) (_ : List Draw) : Prop :=
  ∀ text, text? = some text → ∃ ns : List (Notice × Nat),
    (∀ n ∈ ns, n.1.IsAbout u m ∧ n.1.IsScoped) ∧ text = noticeText u ns

theorem Noticed.announced (text? : Option String) (draws : List Draw)
    (h : Noticed u m text? draws) : r.Announced u m text? draws := by
  intro text htext
  obtain ⟨ns, about, rfl⟩ := h text htext
  exact ⟨ns, .notices fun n hn => (about n hn).1⟩

theorem gives_silence : Eval.Gives (pure none : Eval (Option String)) (Noticed u m) :=
  Eval.gives_pure fun _ h => nomatch h

theorem gives_announced {text : String} {ns : List (Notice × Nat)} (h : r.Announces u m text ns) :
    Eval.Gives (pure (some text) : Eval (Option String)) (r.Announced u m) :=
  Eval.gives_pure fun _ htext => ⟨ns, Option.some.inj htext ▸ h⟩

theorem noticed_noticeText {ns : List (Notice × Nat)} {draws : List Draw}
    (about : ∀ n ∈ ns, n.1.IsAbout u m ∧ n.1.IsScoped) :
    Noticed u m (some (noticeText u ns)) draws :=
  fun _ h => ⟨ns, about, (Option.some.inj h).symm⟩

/-- A text that is one notice with a number drawn for it. -/
theorem gives_notice {c : Category} {text : Nat → String} (n : Notice) (about : n.IsAbout u m)
    (hscope : n.IsScoped) (htext : ∀ id, text id = n.text u id) :
    Eval.Gives (draw c >>= fun id => pure (some (text id))) (Noticed u m) :=
  (Eval.gives_draw c).bind fun id _ _ => by
    rw [htext id, ← noticeText_singleton]
    exact Eval.gives_pure (noticed_noticeText (List.forall_mem_singleton.mpr ⟨about, hscope⟩))

/-! ## Tracing -/

theorem Tracing.notices_braceStart (cx : EditContext) (m : Match) :
    Eval.Gives (Tracing.braceStart cx m) (Noticed cx.unit m) :=
  gives_notice .blockStart True.intro True.intro fun id => by
    rw [String.append_assoc]
    rfl

theorem Tracing.notices_braceEnd (cx : EditContext) (m : Match) :
    Eval.Gives (EditText.literal Tracing.braceEnd cx m) (Noticed cx.unit m) := by
  have htext : Tracing.braceEnd = noticeText cx.unit [(.blockEnd, 0)] := by
    rw [noticeText_singleton, Tracing.braceEnd, String.append_assoc]
    rfl
  rw [htext]
  exact Eval.gives_pure
    (noticed_noticeText (List.forall_mem_singleton.mpr ⟨True.intro, True.intro⟩))

theorem Tracing.notices_siteProbe (cx : EditContext) (m : Match) :
    Eval.Gives (Tracing.siteProbe cx m) (Noticed cx.unit m) :=
  gives_notice .site True.intro True.intro fun id => by
    rw [String.append_assoc]
    rfl

theorem Tracing.notices_varDeclMarker (cx : EditContext) (m : Match) :
    Eval.Gives (Tracing.varDeclMarker cx m) (Noticed cx.unit m) := by
  rw [Tracing.varDeclMarker]
  split
  · exact gives_silence
  · next d hd =>
    exact gives_notice (.declared d) hd True.intro fun id => (String.empty_append ..).symm

theorem Tracing.notices_entryMarker (cx : EditContext) (m : Match) :
    Eval.Gives (Tracing.entryMarker cx m) (Noticed cx.unit m) := by
  rw [Tracing.entryMarker]
  split
  · exact gives_silence
  · next name hname =>
    exact gives_notice (.entry m.root name) ⟨rfl, hname⟩ True.intro fun id =>
      (String.empty_append ..).symm

/-! ## Observation -/

theorem Observation.notices_pointerReference (isAssigned : Bool) (cx : EditContext) (m : Match) :
    Eval.Gives (Observation.pointerReference isAssigned cx m) (Noticed cx.unit m) := by
  rw [Observation.pointerReference]
  split
  · exact gives_silence
  · next type htype =>
    cases isAssigned with
    | true =>
      exact gives_notice (.assigned m.root type) ⟨rfl, htype⟩ True.intro fun id =>
        (String.empty_append ..).symm
    | false =>
      exact gives_notice (.pointer m.root type) ⟨rfl, htype⟩ True.intro fun id =>
        (String.empty_append ..).symm

/-- The report of memory at an address. -/
theorem Observation.notices_memoryReport (n : Notice) {e : Node} {type : CType} {address : String}
    (about : n.IsAbout cx.unit m) (hscope : n.IsScoped)
    (htext : ∀ id, n.text cx.unit id = Observation.markedProbe .mem id "VARREF_MEMORY"
      [type.render, cx.unit.text e] ("MEM:" ++ toString id ++ ":%p:%p")
        [address, "(" ++ address ++ ")+1"]) :
    Eval.Gives (Observation.memoryReport cx e type address) (Noticed cx.unit m) :=
  gives_notice n about hscope fun id => (htext id).symm

theorem Observation.notices_memoryReference (access : Observation.AccessForm) (cx : EditContext)
    (m : Match) :
    Eval.Gives (Observation.memoryReference access cx m) (Noticed cx.unit m) := by
  have hroot {type : CType} (htype : Observation.reportedType? cx.unit m.root = some type) :
      Eval.Gives (Observation.memoryReport cx m.root type ("&(" ++ cx.unit.text m.root ++ ")"))
        (Noticed cx.unit m) :=
    notices_memoryReport (.object m.root type) ⟨rfl, htype⟩ True.intro fun id =>
      String.empty_append ..
  rw [Observation.memoryReference.eq_def]
  refine Eval.gives_ite (fun _ => ?_) fun _ => gives_silence
  cases access with
  | field =>
    refine (Eval.gives_node m "arg").bind fun arg draws hdraws => ?_
    obtain ⟨hnode, rfl⟩ := hdraws
    split
    · exact gives_silence
    · next type htype =>
      refine Eval.gives_ite (fun _ => ?_) fun _ => gives_silence
      exact notices_memoryReport (.pointee arg type) ⟨hnode, htype⟩ True.intro fun id =>
        String.empty_append ..
  | dereference | subscript =>
    dsimp only
    split
    · exact gives_silence
    · next type htype => exact hroot htype

theorem Observation.notices_variableAddress {scope : String}
    (hscope : scope = "LOCAL" ∨ scope = "GLOBAL") (cx : EditContext) (m : Match) :
    Eval.Gives (Observation.variableAddress scope cx m) (Noticed cx.unit m) := by
  rw [Observation.variableAddress]
  split
  · exact gives_silence
  · next d hd =>
    exact Eval.gives_ite (fun _ => gives_silence) fun _ =>
      gives_notice (.variable scope d) hd hscope fun _ => rfl

theorem Observation.notices_integerOperands (cx : EditContext) (m : Match) :
    Eval.Gives (Observation.integerOperands cx m) (Noticed cx.unit m) := by
  rw [Observation.integerOperands]
  refine Eval.gives_ite (fun _ => gives_silence) fun _ => ?_
  refine (Eval.gives_node m "left").bind fun left draws hdraws => ?_
  obtain ⟨hleft, rfl⟩ := hdraws
  refine (Eval.gives_node m "right").bind fun right draws hdraws => ?_
  obtain ⟨hright, rfl⟩ := hdraws
  split
  · exact gives_silence
  · next op hop =>
    split
    · exact gives_silence
    · next l r htypes =>
      refine Eval.gives_ite (fun _ => gives_silence) fun _ => ?_
      exact gives_notice (.operands op l r left right) ⟨hop, hleft, hright, htypes⟩ True.intro
        fun id => (String.empty_append ..).symm

theorem Observation.notices_arrayReference (cx : EditContext) (m : Match) :
    Eval.Gives (Observation.arrayReference cx m) (Noticed cx.unit m) := by
  rw [Observation.arrayReference]
  refine (Eval.gives_node m "var").bind fun var draws hdraws => ?_
  obtain ⟨hvar, rfl⟩ := hdraws
  refine (Eval.gives_node m "idx").bind fun idx draws hdraws => ?_
  obtain ⟨hidx, rfl⟩ := hdraws
  split
  · exact gives_silence
  · next type htype =>
    exact Eval.gives_ite (fun _ => gives_silence) fun _ =>
      gives_notice (.subscript type var idx) ⟨hvar, hidx, htype⟩ True.intro fun id =>
        (String.empty_append ..).symm

theorem Observation.notices_pointerIndexReference (cx : EditContext) (m : Match) :
    Eval.Gives (Observation.pointerIndexReference cx m) (Noticed cx.unit m) := by
  rw [Observation.pointerIndexReference]
  refine (Eval.gives_node m "offset").bind fun offset draws hdraws => ?_
  obtain ⟨hoffset, rfl⟩ := hdraws
  exact gives_notice (.offset offset) hoffset True.intro fun id => (String.empty_append ..).symm

theorem Observation.notices_initReference (cx : EditContext) (m : Match) :
    Eval.Gives (Observation.initReference cx m) (Noticed cx.unit m) := by
  rw [Observation.initReference]
  split
  · exact gives_silence
  · next spelling hspelling =>
    obtain ⟨type, htype, rfl⟩ := Option.map_eq_some_iff.mp hspelling
    exact Eval.gives_ite (fun _ => gives_notice (.condition m.root type) ⟨rfl, htype⟩ True.intro
      fun id => (String.empty_append ..).symm) fun _ => gives_silence

/-! ## Relocation -/

/-- The array is declared again, with a notice, or its name is forwarded. -/
theorem Relocation.notices_redeclaration (lottery : Relocation.Lottery) (cx : EditContext)
    (m : Match) :
    Eval.Gives (Relocation.redeclaration lottery cx m) fun text? draws =>
      Noticed cx.unit m text? draws ∨ ∃ d, cx.unit.declarator? m.root = some d ∧
        text? = some (Relocation.forwarding (cx.unit.text d.name)) := by
  rw [Relocation.redeclaration]
  split
  · exact gives_silence.mono fun _ _ => .inl
  · next d hd =>
    refine Eval.gives_ite (fun _ => ?_) fun _ => Eval.gives_pure (.inr ⟨d, hd, rfl⟩)
    refine (gives_notice (.moved d (m.root.kind == .initDeclarator)) hd True.intro
      fun id => ?_).mono fun _ _ => .inl
    exact (Notice.text_moved cx.unit id d _).symm

theorem Relocation.announces_redeclaration (lottery : Relocation.Lottery) (cx : EditContext)
    (m : Match) :
    Eval.Gives (Relocation.redeclaration lottery cx m) (r.Announced cx.unit m) := by
  refine (notices_redeclaration lottery cx m).mono fun text? draws h => ?_
  rcases h with h | ⟨d, hd, rfl⟩
  · exact h.announced text? draws
  · exact fun text htext => ⟨[], Option.some.inj htext ▸ .forwarding hd⟩

theorem Relocation.notices_freeing (lottery : Relocation.Lottery) (cx : EditContext) (m : Match) :
    Eval.Gives (Relocation.freeing lottery cx m) (Noticed cx.unit m) := by
  rw [Relocation.freeing]
  refine Eval.gives_ite (fun _ => gives_silence) fun _ => ?_
  refine (Relocation.gives_freeCalls _ _).bind fun text draws htext => ?_
  obtain ⟨calls, hcalls, rfl, rfl⟩ := htext
  have htext : String.join (calls.map fun call => Relocation.freeCall call.1
      (cx.unit.text call.2.name) call.2.type) =
        noticeText cx.unit (calls.map fun call => (.freed call.2, call.1)) := by
    rw [noticeText, List.map_map]
    exact congrArg String.join (List.map_congr_left fun call _ =>
      (Notice.text_freed cx.unit call.1 call.2).symm)
  rw [htext]
  refine Eval.gives_pure (noticed_noticeText fun n hn => ?_)
  obtain ⟨call, hcall, rfl⟩ := List.mem_map.mp hn
  exact ⟨⟨lottery, (List.mem_filter.mp (hcalls ▸ List.mem_map_of_mem hcall)).1⟩, True.intro⟩

/-! ## Rules -/

theorem announces_literal {text : String} (known : text ∈ unmarkedTexts) (cx : EditContext)
    (m : Match) : Eval.Gives (EditText.literal text cx m) (r.Announced cx.unit m) :=
  gives_announced (.unmarked known)

theorem Hooks.announces_closer {h : Hooks.Hook} (known : h ∈ Hooks.all) (cx : EditContext)
    (m : Match) : Eval.Gives (Hooks.closer h cx m) (r.Announced cx.unit m) := by
  refine (Eval.gives_draw h.category).bind fun id draws _ => Eval.gives_pure fun text htext => ?_
  exact ⟨[], Option.some.inj htext ▸ .closer id known⟩

namespace Rule

/-- **The texts of the rule announce notices** in every match. -/
def Speaks (r : Rule) : Prop :=
  ∀ e ∈ r.edits, ∀ cx m, Eval.Gives (e.makeText cx m) (r.Announced cx.unit m)

theorem speaks_of_edits {edits : List EditTemplate} (hedits : r.edits = edits)
    (h : ∀ e ∈ edits, ∀ cx m, Eval.Gives (e.makeText cx m) (r.Announced cx.unit m)) : r.Speaks := by
  rw [Speaks, hedits]
  exact h

theorem speaks_of_single {anchor : Anchor} {makeText : EditText}
    (hedits : r.edits = [⟨anchor, makeText⟩])
    (h : ∀ cx m, Eval.Gives (makeText cx m) (r.Announced cx.unit m)) : r.Speaks :=
  speaks_of_edits hedits (List.forall_mem_singleton.mpr h)

theorem speaks_of_notices {anchor : Anchor} {makeText : EditText}
    (hedits : r.edits = [⟨anchor, makeText⟩])
    (h : ∀ cx m, Eval.Gives (makeText cx m) (Noticed cx.unit m)) : r.Speaks :=
  speaks_of_single hedits fun cx m => (h cx m).mono Noticed.announced

theorem speaks_of_pair {anchor anchor' : Anchor} {makeText makeText' : EditText}
    (hedits : r.edits = [⟨anchor, makeText⟩, ⟨anchor', makeText'⟩])
    (h : ∀ cx m, Eval.Gives (makeText cx m) (r.Announced cx.unit m))
    (h' : ∀ cx m, Eval.Gives (makeText' cx m) (r.Announced cx.unit m)) : r.Speaks :=
  speaks_of_edits hedits (List.forall_mem_cons.mpr ⟨h, List.forall_mem_singleton.mpr h'⟩)

/-- A late rule writes lines without a marker. -/
theorem Heads.speaks (h : r.Heads) : r.Speaks := by
  obtain ⟨makeText, hedits, hgives⟩ := h
  refine speaks_of_single hedits fun cx m => (hgives cx m).mono fun text? draws hwrote text htext => ?_
  exact ⟨[], .heading (hwrote.2 text htext)⟩

end Rule

open Rule

theorem Braces.speaks_wrapping (hedits : r.edits = []) : (Braces.wrapping r).Speaks := by
  have hpair : (Braces.wrapping r).edits = [⟨.before "stmt", .literal Braces.opening⟩,
      ⟨.after "stmt", .literal Braces.closing⟩] := by
    show (r.edits ++ [_]) ++ [_] = _
    rw [hedits]
    rfl
  exact speaks_of_pair hpair (announces_literal (by decide)) (announces_literal (by decide))

theorem Braces.speaks_of_mem (hr : r ∈ Braces.labelSet.rules) : r.Speaks := by
  simp only [Braces.labelSet, RuleSet.rules, List.mem_cons, List.not_mem_nil, or_false] at hr
  rcases hr with rfl | rfl
  all_goals exact Braces.speaks_wrapping rfl

theorem Observation.speaks_of_mem_pointerSet (hr : r ∈ Observation.pointerSet.rules) :
    r.Speaks := by
  simp only [Observation.pointerSet, RuleSet.rules, List.mem_cons, List.not_mem_nil, or_false] at hr
  rcases hr with rfl | rfl | rfl | rfl
  all_goals exact speaks_of_notices rfl (Observation.notices_pointerReference _)

theorem Observation.speaks_of_mem_memorySet (hr : r ∈ Observation.memorySet.rules) : r.Speaks := by
  simp only [Observation.memorySet, RuleSet.rules, List.mem_cons, List.not_mem_nil, or_false] at hr
  rcases hr with rfl | rfl | rfl | rfl | rfl
  · exact speaks_of_notices rfl (Observation.notices_memoryReference .dereference)
  · exact speaks_of_notices rfl (Observation.notices_memoryReference .field)
  · exact speaks_of_notices rfl (Observation.notices_memoryReference .subscript)
  · exact speaks_of_notices rfl (Observation.notices_variableAddress (.inl rfl))
  · exact speaks_of_notices rfl (Observation.notices_variableAddress (.inr rfl))

/-- A rule that wraps an expression. -/
theorem Hooks.speaks_of_wrapped {name : String} {hook : Hooks.Hook}
    (hedits : r.edits = [⟨.before name, .literal Hooks.opener⟩, ⟨.after name, Hooks.closer hook⟩])
    (known : hook ∈ Hooks.all) : r.Speaks :=
  speaks_of_pair hedits (announces_literal (by decide)) (Hooks.announces_closer known)

theorem Hooks.speaks_of_mem (hr : r ∈ Hooks.pointerSet.rules) : r.Speaks := by
  simp only [Hooks.pointerSet, RuleSet.rules, List.mem_cons, List.not_mem_nil, or_false] at hr
  rcases hr with rfl | rfl
  all_goals exact Hooks.speaks_of_wrapped rfl (by decide)

theorem Hooks.speaks_integerRule : Hooks.integerRule.Speaks :=
  speaks_of_edits rfl <| List.forall_mem_cons.mpr ⟨announces_literal (by decide),
    List.forall_mem_cons.mpr ⟨Hooks.announces_closer (by decide),
      List.forall_mem_cons.mpr ⟨announces_literal (by decide),
        List.forall_mem_singleton.mpr (Hooks.announces_closer (by decide))⟩⟩⟩

/-- **Every text of every rule** announces its notices. -/
theorem Rule.Listed.speaks (h : r.Listed) : r.Speaks := by
  cases h with
  | thenBranch => exact Braces.speaks_wrapping rfl
  | elseBranch => exact Braces.speaks_wrapping rfl
  | loopBody => exact Braces.speaks_wrapping rfl
  | labelled mem => exact Braces.speaks_of_mem mem
  | block =>
    exact speaks_of_pair rfl (fun cx m => (Tracing.notices_braceStart cx m).mono Noticed.announced)
      fun cx m => (Tracing.notices_braceEnd cx m).mono Noticed.announced
  | declaration => exact speaks_of_notices rfl Tracing.notices_varDeclMarker
  | site => exact speaks_of_notices rfl Tracing.notices_siteProbe
  | entry => exact speaks_of_notices rfl Tracing.notices_entryMarker
  | arrayIndex => exact speaks_of_notices rfl Observation.notices_arrayReference
  | pointerIndex => exact speaks_of_notices rfl Observation.notices_pointerIndexReference
  | memory mem => exact Observation.speaks_of_mem_memorySet mem
  | pointer mem => exact Observation.speaks_of_mem_pointerSet mem
  | integer => exact speaks_of_notices rfl Observation.notices_integerOperands
  | divider => exact speaks_of_notices rfl Observation.notices_integerOperands
  | init => exact speaks_of_notices rfl Observation.notices_initReference
  | hookedIndex => exact Hooks.speaks_of_wrapped rfl (by decide)
  | hookedPointer mem => exact Hooks.speaks_of_mem mem
  | hookedOperands => exact Hooks.speaks_integerRule
  | relocation lottery =>
    exact speaks_of_pair rfl (announces_literal (by decide))
      (Relocation.announces_redeclaration lottery)
  | free lottery => exact speaks_of_notices rfl (Relocation.notices_freeing lottery)
  | flags => exact (Rule.Listed.flags.heads rfl).speaks
  | definitions => exact (Rule.Listed.definitions.heads rfl).speaks
  | helpers => exact (Rule.Listed.helpers.heads rfl).speaks

end ProbeWeaver
