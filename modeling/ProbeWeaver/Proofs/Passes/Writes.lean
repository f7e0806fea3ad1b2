import ProbeWeaver.Proofs.Passes.Texts

/-!
# Proofs/Passes/Writes — which form each rule's text has

Each edit text is gone through once: what it writes, with which numbers, and which expressions it
evaluates (`Wrote`).  A text before the slot around a construct evaluates the construct or parts of
it; a text about a variable's address evaluates its declared name (`EditTemplate.Sees`).

* `Rule.Listed.writes` — every edit of every rule of every pass.
-/

namespace ProbeWeaver

open Node (PlaceOf)

variable {t : Tree} {u : SourceUnit} {cx : EditContext} {m : Match} {r : Rule} {n : Node}
  {name : String}

/-- Nothing is evaluated. -/
def NoExpressions (exprs : List Node) : Prop := exprs = []

theorem gives_nothing {E : List Node → Prop} :
    Eval.Gives (pure none : Eval (Option String)) (Wrote u E) :=
  Eval.gives_pure rfl

theorem gives_literal (cx : EditContext) (m : Match) {text : String} (known : text ∈ fixedTexts) :
    Eval.Gives (EditText.literal text cx m) (Wrote u NoExpressions) :=
  Eval.gives_pure ⟨[], rfl, .fixed known⟩

/-- A text that stands for one marker alone. -/
theorem gives_marked {c : Category} (kind lead : String) {fields : List String}
    (known : (c, kind) ∈ markerKinds) (leads : lead ∈ ["", "\n"])
    (quoted : ∀ f ∈ fields, f ∈ u.quotes) {text : Nat → String}
    (htext : ∀ id, text id = lead ++ marker (some id) kind fields ++ "\n") :
    Eval.Gives (draw c >>= fun id => pure (some (text id))) (Wrote u NoExpressions) := by
  refine (Eval.gives_draw c).bind fun id draws hdraws => Eval.gives_pure ?_
  subst hdraws
  exact ⟨[], rfl, htext id ▸ .marked id known leads quoted⟩

/-- A text that is a marker and a probe. -/
theorem gives_probed {c : Category} (kind lead before behind : String) (exprs : List Node)
    {fields args : List String} (known : (c, kind) ∈ probeKinds) (leads : lead ∈ ["", "\n"])
    (format : (before, behind) ∈ probeFormats) (quoted : ∀ f ∈ fields, f ∈ u.quotes)
    (within : ∀ e ∈ exprs, e ∈ u.root.walk) (evaluated : ∀ arg ∈ args, Argument u exprs arg)
    {text : Nat → String} (htext : ∀ id, text id = lead ++
      Observation.markedProbe c id kind fields (before ++ toString id ++ behind) args) :
    Eval.Gives (draw c >>= fun id => pure (some (text id))) (Wrote u (· = exprs)) := by
  refine (Eval.gives_draw c).bind fun id draws hdraws => Eval.gives_pure ?_
  subst hdraws
  exact ⟨exprs, rfl, htext id ▸ .probed id known leads format quoted within evaluated⟩

theorem gives_no_heading {ruleName : String} :
    Eval.Gives (pure none : Eval (Option String)) (WroteHeading ruleName) :=
  Eval.gives_pure ⟨rfl, fun _ h => nomatch h⟩

theorem gives_heading {ruleName text : String} (h : Heading ruleName text) :
    Eval.Gives (pure (some text) : Eval (Option String)) (WroteHeading ruleName) :=
  Eval.gives_pure ⟨rfl, fun _ htext => Option.some.inj htext ▸ h⟩

/-! ## Tracing -/

theorem Tracing.gives_braceStart (cx : EditContext) (m : Match) :
    Eval.Gives (Tracing.braceStart cx m) (Wrote u NoExpressions) :=
  gives_marked "BRACESTART" "\n" (by decide) (by decide) (fun _ h => absurd h List.not_mem_nil)
    fun _ => rfl

theorem Tracing.gives_siteProbe (cx : EditContext) (m : Match) :
    Eval.Gives (Tracing.siteProbe cx m) (Wrote u NoExpressions) :=
  gives_probed "INSERTIONSITE" "\n" "INST:" "" [] (by decide) (by decide) (by decide)
    (fun _ h => absurd h List.not_mem_nil) (fun _ h => absurd h List.not_mem_nil)
    (fun _ h => absurd h List.not_mem_nil) fun id => by
      rw [Observation.markedProbe, String.append_empty, String.append_assoc]

theorem Tracing.gives_varDeclMarker (hu : cx.unit.root = .root t) (hm : m.root.PlaceOf t) :
    Eval.Gives (Tracing.varDeclMarker cx m) (Wrote cx.unit NoExpressions) := by
  rw [Tracing.varDeclMarker]
  split
  · exact gives_nothing
  · next d hd =>
    obtain ⟨decl, -, hdecl, hmem⟩ := SourceUnit.exists_mem_declarators hm hd
    refine gives_marked "VARDECL" "" (by decide) (by decide) (fun f hf => ?_)
      fun id => by rw [String.empty_append]
    simp only [List.mem_cons, List.not_mem_nil, or_false] at hf
    rcases hf with rfl | rfl
    · exact SourceUnit.declarator_mem_quotes hu hdecl hmem List.mem_cons_self
    · exact SourceUnit.text_mem_quotes hu (Declarator.placeOf_name hdecl hmem)

theorem Tracing.gives_entryMarker (hu : cx.unit.root = .root t) (hm : m.root.PlaceOf t) :
    Eval.Gives (Tracing.entryMarker cx m) (Wrote cx.unit NoExpressions) := by
  rw [Tracing.entryMarker]
  split
  · exact gives_nothing
  · next name hname =>
    refine gives_marked "FUNCTIONENTER" "" (by decide) (by decide) (fun f hf => ?_)
      fun id => by rw [String.empty_append]
    simp only [List.mem_cons, List.not_mem_nil, or_false] at hf
    rcases hf with rfl | rfl
    · exact SourceUnit.resultSpelling_mem_quotes hu hm
    · exact SourceUnit.definedName_mem_quotes hu hm hname

theorem Tracing.gives_flagLines (cx : EditContext) (m : Match) :
    Eval.Gives (Tracing.flagLines cx m) (WroteHeading Tracing.flagRule.name) := by
  refine Eval.gives_get.bind fun numbering draws hdraws => ?_
  subst hdraws
  have hlines (isDefinition : Bool) (cs : List Category) (hcs : ∀ c ∈ cs, c ∈ flagCategories) :
      Heading Tracing.flagRule.name (String.join (cs.map fun c =>
        if isDefinition then Probe.flagDefinition c (numbering.count c)
        else Probe.flagDeclaration c (numbering.count c))) := by
    have hmap := Heading.flags (cs.map fun c => (c, numbering.count c)) isDefinition
      fun line hline => by
        obtain ⟨c, hc, rfl⟩ := List.mem_map.mp hline
        exact hcs c hc
    rwa [List.map_map] at hmap
  split
  · exact gives_heading (hlines true flagCategories fun _ => id)
  · dsimp only
    split
    · exact gives_no_heading
    · exact gives_heading (hlines false _ fun c hc => (List.mem_filter.mp hc).1)

/-! ## Observation -/

theorem Observation.gives_pointerReference (isAssigned : Bool) (hu : cx.unit.root = .root t)
    (hm : m.root.PlaceOf t) :
    Eval.Gives (Observation.pointerReference isAssigned cx m)
      (Wrote cx.unit fun exprs => ∀ e ∈ exprs, e = m.root) := by
  rw [Observation.pointerReference]
  split
  · exact gives_nothing
  · next type htype =>
    have hquoted : ∀ f ∈ [type.render, cx.unit.text m.root], f ∈ cx.unit.quotes := by
      intro f hf
      simp only [List.mem_cons, List.not_mem_nil, or_false] at hf
      rcases hf with rfl | rfl
      · exact SourceUnit.reportedType_mem_quotes hu hm htype
      · exact SourceUnit.text_mem_quotes hu hm
    cases isAssigned with
    | true =>
      refine (gives_marked "VARREF_ASSIGN" "" (by decide) (by decide) hquoted
        fun id => by rw [String.empty_append]).mono (Wrote.mono ?_)
      rintro _ rfl
      exact fun _ h => absurd h List.not_mem_nil
    | false =>
      refine (gives_probed "VARREF_POINTER" "" "PTR:" ":%p" [m.root] (by decide) (by decide)
        (by decide) hquoted (fun e he => ?_) (fun arg harg => ?_)
        fun id => by rw [String.empty_append]).mono (Wrote.mono ?_)
      · rw [List.mem_singleton.mp he, hu]
        exact hm.mem_walk
      · rw [List.mem_singleton.mp harg]
        exact .value List.mem_cons_self
      · rintro _ rfl
        exact fun e he => List.mem_singleton.mp he

theorem Observation.gives_memoryReport {type : CType} {address : String}
    (hu : cx.unit.root = .root t) (hn : n.PlaceOf t)
    (htype : Observation.reportedType? cx.unit n = some type)
    (haddress : Argument cx.unit [n] address) :
    Eval.Gives (Observation.memoryReport cx n type address) (Wrote cx.unit (· = [n])) := by
  refine gives_probed "VARREF_MEMORY" "" "MEM:" ":%p:%p" [n] (by decide) (by decide) (by decide)
    (fun f hf => ?_) (fun e he => ?_) (fun arg harg => ?_) fun id => by rw [String.empty_append]
  · simp only [List.mem_cons, List.not_mem_nil, or_false] at hf
    rcases hf with rfl | rfl
    · exact SourceUnit.reportedType_mem_quotes hu hn htype
    · exact SourceUnit.text_mem_quotes hu hn
  · rw [List.mem_singleton.mp he, hu]
    exact hn.mem_walk
  · simp only [List.mem_cons, List.not_mem_nil, or_false] at harg
    rcases harg with rfl | rfl
    · exact haddress
    · exact .past haddress

theorem Observation.gives_memoryReference (access : Observation.AccessForm)
    (hu : cx.unit.root = .root t) (hm : m.root.PlaceOf t)
    (harg : access = .field → ∀ n, m.node? "arg" = some n → n ∈ m.root.children) :
    Eval.Gives (Observation.memoryReference access cx m)
      (Wrote cx.unit fun exprs => ∀ e ∈ exprs, e = m.root ∨ e ∈ m.root.children) := by
  have hroot : ∀ {type : CType}, Observation.reportedType? cx.unit m.root = some type →
      Eval.Gives (Observation.memoryReport cx m.root type ("&(" ++ cx.unit.text m.root ++ ")"))
        (Wrote cx.unit fun exprs => ∀ e ∈ exprs, e = m.root ∨ e ∈ m.root.children) := by
    intro type htype
    refine (gives_memoryReport hu hm htype (.address List.mem_cons_self)).mono (Wrote.mono ?_)
    rintro _ rfl
    exact fun e he => .inl (List.mem_singleton.mp he)
  rw [Observation.memoryReference.eq_def]
  refine Eval.gives_ite (fun _ => ?_) fun _ => gives_nothing
  cases access with
  | field =>
    refine (Eval.gives_node m "arg").bind fun arg draws hdraws => ?_
    obtain ⟨hnode, rfl⟩ := hdraws
    have hchild := harg rfl arg hnode
    split
    · exact gives_nothing
    · next type htype =>
      refine Eval.gives_ite (fun _ => ?_) fun _ => gives_nothing
      refine (gives_memoryReport hu (hm.of_mem_children hchild) htype
        (.value List.mem_cons_self)).mono (Wrote.mono ?_)
      rintro _ rfl e he
      exact .inr (List.mem_singleton.mp he ▸ hchild)
  | dereference | subscript =>
    dsimp only
    split
    · exact gives_nothing
    · next type htype => exact hroot htype

theorem Observation.gives_variableAddress {scope : String}
    (format : (scope ++ ":", ":%p:%d") ∈ probeFormats) (hu : cx.unit.root = .root t)
    (hm : m.root.PlaceOf t) :
    Eval.Gives (Observation.variableAddress scope cx m) (Wrote cx.unit fun exprs =>
      ∀ e ∈ exprs, ∃ d, cx.unit.declarator? m.root = some d ∧ e = d.name) := by
  rw [Observation.variableAddress]
  split
  · exact gives_nothing
  · next d hd =>
    obtain ⟨decl, -, hdecl, hmem⟩ := SourceUnit.exists_mem_declarators hm hd
    have htype : d.type.withoutVolatile.render ∈ cx.unit.quotes :=
      SourceUnit.declarator_mem_quotes hu hdecl hmem List.mem_cons_self
    refine Eval.gives_ite (fun _ => gives_nothing) fun _ => ?_
    refine (gives_probed "VARDECL" "\n" (scope ++ ":") ":%p:%d" [d.name] (by decide) (by decide)
      format (fun f hf => ?_) (fun e he => ?_) (fun arg harg => ?_) fun _ => rfl).mono
        (Wrote.mono ?_)
    · simp only [List.mem_cons, List.not_mem_nil, or_false] at hf
      rcases hf with rfl | rfl
      · exact htype
      · exact SourceUnit.text_mem_quotes hu (Declarator.placeOf_name hdecl hmem)
    · rw [List.mem_singleton.mp he, hu]
      exact (Declarator.placeOf_name hdecl hmem).mem_walk
    · simp only [List.mem_cons, List.not_mem_nil, or_false] at harg
      rcases harg with rfl | rfl
      · exact .address List.mem_cons_self
      · exact .size htype
    · rintro _ rfl e he
      exact ⟨d, hd, List.mem_singleton.mp he⟩

theorem Observation.gives_operandReport {op leftType rightType : String} {left right : Node}
    (hu : cx.unit.root = .root t) (hleft : left.PlaceOf t) (hright : right.PlaceOf t)
    (hop : op ∈ cx.unit.quotes) (htypes : leftType ∈ cx.unit.quotes ∧ rightType ∈ cx.unit.quotes) :
    Eval.Gives (Observation.operandReport cx.unit op leftType rightType left right)
      (Wrote cx.unit (· = [left, right])) := by
  have hconversion (type : String) :
      printConversion type = ("%llu", "unsigned long long") ∨
        printConversion type = ("%lld", "long long") := by
    rw [printConversion]
    split
    · exact .inl rfl
    · exact .inr rfl
  have hcasts : (printConversion leftType).2 ∈ ["long long", "unsigned long long"] ∧
      (printConversion rightType).2 ∈ ["long long", "unsigned long long"] ∧
        ("INT:", ":" ++ (printConversion leftType).1 ++ ":" ++ (printConversion rightType).1) ∈
          probeFormats := by
    rcases hconversion leftType with hl | hl <;> rcases hconversion rightType with hr | hr <;>
      rw [hl, hr] <;> decide
  rw [Observation.operandReport]
  generalize printConversion leftType = leftConversion at hcasts ⊢
  generalize printConversion rightType = rightConversion at hcasts ⊢
  obtain ⟨leftFormat, leftCast⟩ := leftConversion
  obtain ⟨rightFormat, rightCast⟩ := rightConversion
  have hformat (id : Nat) : "INT:" ++ toString id ++ ":" ++ leftFormat ++ ":" ++ rightFormat =
      "INT:" ++ toString id ++ (":" ++ leftFormat ++ ":" ++ rightFormat) := by
    simp only [String.append_assoc]
  refine gives_probed "VARREF_INTEGER" "" "INT:" _ [left, right] (by decide) (by decide) hcasts.2.2
    (fun f hf => ?_) (fun e he => ?_) (fun arg harg => ?_)
    fun id => by rw [String.empty_append, ← hformat id]
  · simp only [List.mem_cons, List.not_mem_nil, or_false] at hf
    rcases hf with rfl | rfl | rfl | rfl | rfl
    · exact htypes.1
    · exact SourceUnit.operandText_mem_quotes hu hleft
    · exact htypes.2
    · exact SourceUnit.operandText_mem_quotes hu hright
    · exact hop
  · simp only [List.mem_cons, List.not_mem_nil, or_false] at he
    rw [hu]
    rcases he with rfl | rfl
    · exact hleft.mem_walk
    · exact hright.mem_walk
  · simp only [List.mem_cons, List.not_mem_nil, or_false] at harg
    rcases harg with rfl | rfl
    · exact .operand hcasts.1 List.mem_cons_self
    · exact .operand hcasts.2.1 (.tail _ (.head _))

theorem Observation.gives_integerOperands (hu : cx.unit.root = .root t) (hm : m.root.PlaceOf t)
    (hparts : ∀ name ∈ ["left", "right"], ∀ n, m.node? name = some n → n ∈ m.root.children) :
    Eval.Gives (Observation.integerOperands cx m)
      (Wrote cx.unit fun exprs => ∀ e ∈ exprs, e ∈ m.root.children) := by
  rw [Observation.integerOperands]
  refine Eval.gives_ite (fun _ => gives_nothing) fun _ => ?_
  refine (Eval.gives_node m "left").bind fun left draws hdraws => ?_
  obtain ⟨hnode, rfl⟩ := hdraws
  have hleft := hparts "left" (by decide) left hnode
  refine (Eval.gives_node m "right").bind fun right draws hdraws => ?_
  obtain ⟨hnode', rfl⟩ := hdraws
  have hright := hparts "right" (by decide) right hnode'
  split
  · exact gives_nothing
  · next op hop =>
    split
    · exact gives_nothing
    · next l r htypes =>
      refine Eval.gives_ite (fun _ => gives_nothing) fun _ => ?_
      refine (gives_operandReport hu (hm.of_mem_children hleft) (hm.of_mem_children hright)
        (SourceUnit.operator_mem_quotes hu hm hop)
        (SourceUnit.converted_mem_quotes hu hm hleft hright hop htypes)).mono (Wrote.mono ?_)
      rintro _ rfl e he
      simp only [List.mem_cons, List.not_mem_nil, or_false] at he
      rcases he with rfl | rfl
      · exact hleft
      · exact hright

theorem Observation.gives_arrayReference (hu : cx.unit.root = .root t)
    (hplaces : ∀ name n, m.node? name = some n → n.PlaceOf t) :
    Eval.Gives (Observation.arrayReference cx m) (Wrote cx.unit NoExpressions) := by
  rw [Observation.arrayReference]
  refine (Eval.gives_node m "var").bind fun var draws hdraws => ?_
  obtain ⟨hvar, rfl⟩ := hdraws
  refine (Eval.gives_node m "idx").bind fun idx draws hdraws => ?_
  obtain ⟨hidx, rfl⟩ := hdraws
  split
  · exact gives_nothing
  · next type htype =>
    refine Eval.gives_ite (fun _ => gives_nothing) fun _ => ?_
    refine gives_marked "VARREF_ARRAY" "" (by decide) (by decide) (fun f hf => ?_)
      fun id => by rw [String.empty_append]
    simp only [List.mem_cons, List.not_mem_nil, or_false] at hf
    rcases hf with rfl | rfl | rfl
    · exact SourceUnit.reportedType_mem_quotes hu (hplaces _ _ hvar) htype
    · exact SourceUnit.text_mem_quotes hu (hplaces _ _ hvar)
    · exact SourceUnit.text_mem_quotes hu (hplaces _ _ hidx)

theorem Observation.gives_pointerIndexReference (hu : cx.unit.root = .root t)
    (hplaces : ∀ name n, m.node? name = some n → n.PlaceOf t) :
    Eval.Gives (Observation.pointerIndexReference cx m) (Wrote cx.unit NoExpressions) := by
  rw [Observation.pointerIndexReference]
  refine (Eval.gives_node m "offset").bind fun offset draws hdraws => ?_
  obtain ⟨hoffset, rfl⟩ := hdraws
  refine gives_marked "VARREF_POINTERINDEX" "" (by decide) (by decide) (fun f hf => ?_)
    fun id => by rw [String.empty_append]
  simp only [List.mem_cons, List.not_mem_nil, or_false] at hf
  rcases hf with rfl | rfl
  · exact List.mem_cons_self
  · exact SourceUnit.text_mem_quotes hu (hplaces _ _ hoffset)

theorem Observation.gives_initReference (hu : cx.unit.root = .root t) (hm : m.root.PlaceOf t) :
    Eval.Gives (Observation.initReference cx m) (Wrote cx.unit NoExpressions) := by
  rw [Observation.initReference]
  split
  · exact gives_nothing
  · next spelling hspelling =>
    obtain ⟨type, htype, rfl⟩ := Option.map_eq_some_iff.mp hspelling
    refine Eval.gives_ite (fun _ => ?_) fun _ => gives_nothing
    refine gives_marked "VARREF_INIT" "" (by decide) (by decide) (fun f hf => ?_)
      fun id => by rw [String.empty_append]
    simp only [List.mem_cons, List.not_mem_nil, or_false] at hf
    rcases hf with rfl | rfl
    · exact SourceUnit.printedType_mem_quotes hu hm htype
    · exact SourceUnit.text_mem_quotes hu hm

/-! ## Hooks -/

theorem Hooks.gives_closer (cx : EditContext) (m : Match) {h : Hooks.Hook} (known : h ∈ Hooks.all) :
    Eval.Gives (Hooks.closer h cx m) (Wrote u NoExpressions) := by
  refine (Eval.gives_draw h.category).bind fun id draws hdraws => Eval.gives_pure ?_
  subst hdraws
  exact ⟨[], rfl, .closing id known⟩

/-- The hooks that are defined for accepted edits, with their numbers. -/
def Hooks.defined (accepted : EditSet) (hooks : List Hooks.Hook) : List (Hooks.Hook × Nat) :=
  hooks.flatMap fun h =>
    ((Hooks.numbersAfter accepted (Hooks.closerStem h)).mergeSort (· ≤ ·)).eraseReps.map (h, ·)

theorem Hooks.mem_of_mem_defined {accepted : EditSet} {hooks : List Hooks.Hook}
    {line : Hooks.Hook × Nat} (h : line ∈ Hooks.defined accepted hooks) : line.1 ∈ hooks := by
  obtain ⟨hook, hhook, hline⟩ := List.mem_flatMap.mp h
  obtain ⟨n, -, rfl⟩ := List.mem_map.mp hline
  exact hhook

theorem Hooks.definitionsOf_eq (accepted : EditSet) (hooks : List Hooks.Hook) :
    hooks.flatMap (Hooks.definitionsOf accepted) = (Hooks.defined accepted hooks).map
      fun line => "#define " ++ line.1.tag ++ toString line.2 ++ " \n" := by
  rw [Hooks.defined, List.map_flatMap]
  refine congrArg hooks.flatMap (funext fun h => ?_)
  rw [List.map_map]
  rfl

theorem Hooks.gives_definitions (cx : EditContext) (m : Match) :
    Eval.Gives (Hooks.definitions cx m) (WroteHeading Hooks.definitionRule.name) := by
  rw [Hooks.definitions]
  refine Eval.gives_ite (fun _ => gives_no_heading) fun _ => ?_
  rw [Hooks.definitionsOf_eq]
  exact gives_heading (.hooks _ fun _ => Hooks.mem_of_mem_defined)

/-! ## Relocation -/

theorem Relocation.gives_redeclaration (lottery : Relocation.Lottery)
    (hu : cx.unit.root = .root t) (hm : m.root.PlaceOf t) :
    Eval.Gives (Relocation.redeclaration lottery cx m) (Wrote cx.unit NoExpressions) := by
  rw [Relocation.redeclaration]
  split
  · exact gives_nothing
  · next d hd =>
    obtain ⟨decl, -, hdecl, hmem⟩ := SourceUnit.exists_mem_declarators hm hd
    have hname := SourceUnit.text_mem_quotes hu (Declarator.placeOf_name hdecl hmem)
    refine Eval.gives_ite (fun _ => ?_) fun _ => Eval.gives_pure ⟨[], rfl, .forwarded hname⟩
    refine (Eval.gives_draw .heap).bind fun id draws hdraws => Eval.gives_pure ?_
    subst hdraws
    exact ⟨[], rfl, .moved id _ hname
      (SourceUnit.declarator_mem_quotes hu hdecl hmem (.tail _ (.head _)))
      (SourceUnit.declarator_mem_quotes hu hdecl hmem (.tail _ (.tail _ (.head _))))⟩

theorem Relocation.gives_freeCalls (u : SourceUnit) : ∀ ds : List Declarator,
    Eval.Gives (Relocation.freeCalls u ds) fun text draws => ∃ calls : List (Nat × Declarator),
      calls.map Prod.snd = ds ∧ draws = calls.map (⟨.free, ·.1⟩) ∧
        text = String.join (calls.map fun call =>
          Relocation.freeCall call.1 (u.text call.2.name) call.2.type)
  | [] => Eval.gives_pure ⟨[], rfl, rfl, rfl⟩
  | d :: ds => by
      rw [Relocation.freeCalls]
      refine (Eval.gives_draw .free).bind fun id draws hdraws => ?_
      subst hdraws
      refine (gives_freeCalls u ds).bind fun text draws htext => Eval.gives_pure ?_
      obtain ⟨calls, rfl, rfl, rfl⟩ := htext
      refine ⟨(id, d) :: calls, rfl, ?_, ?_⟩
      · rw [List.append_nil]
        rfl
      · rw [List.map_cons, String.join_cons]

/-- **An array in scope** is eligible, and declared in front. -/
theorem Relocation.exists_mem_arraysInScope {lottery : Relocation.Lottery} {d : Declarator}
    (hn : n.PlaceOf t) (hd : d ∈ Relocation.arraysInScope u lottery n) :
    ∃ decl, decl.PlaceOf t ∧ d ∈ u.declarators decl ∧ Relocation.isEligible u d.node = true ∧
      decl.start < n.start := by
  obtain ⟨block, hblock, hd⟩ := List.mem_flatMap.mp (List.mem_mergeSort.mp hd)
  obtain ⟨decl, hdecl, hd⟩ := List.mem_flatMap.mp hd
  have hmember := (List.mem_filter.mp hdecl).1
  obtain ⟨hd, hmoves⟩ := List.mem_filter.mp hd
  refine ⟨decl, ?_, hd, (Bool.and_eq_true_iff.mp hmoves).1, ?_⟩
  · exact (hn.of_mem_ancestors (List.mem_filter.mp hblock).1).of_mem_namedChildren
      ((List.takeWhile_sublist _).mem hmember)
  · exact of_decide_eq_true (List.all_eq_true.mp List.all_takeWhile decl hmember)

theorem Relocation.gives_freeing (lottery : Relocation.Lottery) (hu : cx.unit.root = .root t)
    (hm : m.root.PlaceOf t) :
    Eval.Gives (Relocation.freeing lottery cx m) (Wrote cx.unit NoExpressions) := by
  rw [Relocation.freeing]
  refine Eval.gives_ite (fun _ => gives_nothing) fun _ => ?_
  refine (Relocation.gives_freeCalls _ _).bind fun text draws htext => Eval.gives_pure ?_
  obtain ⟨calls, hcalls, rfl, rfl⟩ := htext
  have hfreed := Inserted.freed (u := cx.unit)
    (calls.map fun call => (call.1, cx.unit.text call.2.name, call.2.type)) fun call hcall => by
      obtain ⟨⟨id, d⟩, hmem, rfl⟩ := List.mem_map.mp hcall
      obtain ⟨decl, hdecl, hd, -⟩ := Relocation.exists_mem_arraysInScope hm
        (List.mem_filter.mp (hcalls ▸ List.mem_map_of_mem hmem)).1
      exact ⟨SourceUnit.text_mem_quotes hu (Declarator.placeOf_name hdecl hd),
        SourceUnit.declarator_mem_quotes hu hdecl hd (.tail _ (.head _))⟩
  rw [List.map_map, List.map_map] at hfreed
  rw [List.append_nil]
  exact ⟨[], rfl, hfreed⟩

theorem Relocation.gives_helperLines (cx : EditContext) (m : Match) :
    Eval.Gives (Relocation.helperLines cx m) (WroteHeading Relocation.helperRule.name) := by
  rw [Relocation.helperLines]
  refine Eval.gives_get.bind fun numbering draws hdraws => ?_
  subst hdraws
  have hhelpers {helpers : List (String × String)}
      (h : ∀ helper ∈ helpers, helper ∈ Relocation.helperMacros) :
      Heading Relocation.helperRule.name (Relocation.header ++
        String.join (helpers.map fun helper => helper.2 ++ "\n")) := by
    have hnone := Heading.helpers none h
    rwa [Option.map_none, Option.getD_none, String.append_empty] at hnone
  refine Eval.gives_ite (fun _ => ?_) fun _ => Eval.gives_ite (fun _ => gives_no_heading) fun _ => ?_
  · exact gives_heading (.helpers (some (numbering.count .free)) fun helper hhelper =>
      (List.mem_filter.mp hhelper).1)
  · exact gives_heading (hhelpers fun helper hhelper => (List.mem_filter.mp hhelper).1)

/-! ## Rules -/

/-- **What an edit may evaluate**: before the slot around its construct, the construct or parts of
it; around a declaration or at the start of `main`, the name that is declared. -/
def EditTemplate.Sees (e : EditTemplate) (u : SourceUnit) (m : Match) (x : Node) : Prop :=
  (e.anchor = .before "stmt" ∧ (∀ s, m.node? "stmt" = some s → m.root.slotAround? = some s) ∧
    (x = m.root ∨ x ∈ m.root.children)) ∨
  ∃ d, u.declarator? m.root = some d ∧ x = d.name ∧
    (e.anchor = .after "decl" ∨
      e.anchor = .before "stmt" ∧
        (∀ s, m.node? "stmt" = some s → Condition.startOfMain m u = some s) ∧
          ∃ decl file, m.root.parent? = some decl ∧ decl.kind = .declaration ∧
            decl.parent? = some file ∧ file.kind = .sourceUnit)

namespace Rule

/-- **The edit has a form of inserted text** in every match of the rule, and evaluates what it
sees. -/
def Permits (r : Rule) (e : EditTemplate) : Prop :=
  ∀ ⦃u : SourceUnit⦄ ⦃t : Tree⦄ ⦃m : Match⦄ (accepted : EditSet), u.root = .root t →
    r.Offers u m → m.Within t →
      Eval.Gives (e.makeText ⟨u, accepted⟩ m) (Wrote u fun exprs => ∀ x ∈ exprs, e.Sees u m x)

/-- A text that evaluates nothing. -/
theorem permits_unseen {e : EditTemplate}
    (h : ∀ {t : Tree} (cx : EditContext) (m : Match), cx.unit.root = .root t → m.Within t →
      Eval.Gives (e.makeText cx m) (Wrote cx.unit NoExpressions)) :
    r.Permits e := fun u _ m accepted hu _ hm =>
  (h ⟨u, accepted⟩ m hu hm).mono (Wrote.mono fun _ hnone _ hx => absurd (hnone ▸ hx) List.not_mem_nil)

theorem permits_literal {anchor : Anchor} {text : String} (known : text ∈ fixedTexts) :
    r.Permits ⟨anchor, .literal text⟩ :=
  permits_unseen fun cx m _ _ => gives_literal cx m known

theorem relates_slot (ruleName : String) (p : Pattern) :
    ((ofPattern ruleName p).bind "stmt" Condition.slotAround).Relates "stmt"
      fun main s => main.slotAround? = some s :=
  relates_bind (by decide) id

/-- A text before the slot around the construct. -/
theorem permits_slot {makeText : EditText}
    (hslot : r.Relates "stmt" fun main s => main.slotAround? = some s)
    (h : ∀ {u : SourceUnit} {t : Tree} {m : Match} (accepted : EditSet), u.root = .root t →
      r.Offers u m → m.Within t → Eval.Gives (makeText ⟨u, accepted⟩ m)
        (Wrote u fun exprs => ∀ x ∈ exprs, x = m.root ∨ x ∈ m.root.children)) :
    r.Permits ⟨.before "stmt", makeText⟩ := fun _ _ _ accepted hu hm hwithin =>
  (h accepted hu hm hwithin).mono <| Wrote.mono fun _ hnear x hx =>
    .inl ⟨rfl, fun _ hs => hslot hu hm hs, hnear x hx⟩

/-- **The edits of the rule have the forms of inserted text.** -/
def Writes (r : Rule) : Prop := ∀ e ∈ r.edits, r.Permits e

theorem writes_of_edits {edits : List EditTemplate} (hedits : r.edits = edits)
    (h : ∀ e ∈ edits, r.Permits e) : r.Writes := by
  rw [Writes, hedits]
  exact h

theorem writes_of_single {e : EditTemplate} (hedits : r.edits = [e]) (h : r.Permits e) :
    r.Writes :=
  writes_of_edits hedits fun _ he => List.mem_singleton.mp he ▸ h

theorem writes_of_pair {e f : EditTemplate} (hedits : r.edits = [e, f]) (he : r.Permits e)
    (hf : r.Permits f) : r.Writes :=
  writes_of_edits hedits <| List.forall_mem_cons.mpr ⟨he, List.forall_mem_singleton.mpr hf⟩

end Rule

open Rule

theorem Braces.writes_wrapping (hedits : r.edits = []) : (Braces.wrapping r).Writes := by
  refine writes_of_pair (e := ⟨.before "stmt", .literal Braces.opening⟩)
    (f := ⟨.after "stmt", .literal Braces.closing⟩) ?_ (permits_literal (by decide))
    (permits_literal (by decide))
  show (r.edits ++ [_]) ++ [_] = _
  rw [hedits]
  rfl

theorem Braces.writes_of_mem (hr : r ∈ Braces.labelSet.rules) : r.Writes := by
  simp only [Braces.labelSet, RuleSet.rules, List.mem_cons, List.not_mem_nil, or_false] at hr
  rcases hr with rfl | rfl
  all_goals exact Braces.writes_wrapping rfl

theorem Tracing.writes_blockRule : Tracing.blockRule.Writes :=
  writes_of_pair rfl (permits_unseen fun cx m _ _ => Tracing.gives_braceStart cx m)
    (permits_literal (by decide))

theorem Tracing.writes_declarationRule : Tracing.declarationRule.Writes :=
  writes_of_single rfl <| permits_unseen fun _ _ hu hm => Tracing.gives_varDeclMarker hu hm.root

theorem Tracing.writes_siteRule : Tracing.siteRule.Writes :=
  writes_of_single rfl <| permits_unseen fun cx m _ _ => Tracing.gives_siteProbe cx m

theorem Tracing.writes_entryRule : Tracing.entryRule.Writes :=
  writes_of_single rfl <| permits_unseen fun _ _ hu hm => Tracing.gives_entryMarker hu hm.root

theorem Observation.writes_of_mem_pointerSet (hr : r ∈ Observation.pointerSet.rules) :
    r.Writes := by
  have hpermits {r : Rule} (isAssigned : Bool)
      (hslot : r.Relates "stmt" fun main s => main.slotAround? = some s) :
      r.Permits ⟨.before "stmt", Observation.pointerReference isAssigned⟩ :=
    permits_slot hslot fun _ hu _ hm =>
      (Observation.gives_pointerReference isAssigned hu hm.root).mono
        (Wrote.mono fun _ h x hx => .inl (h x hx))
  simp only [Observation.pointerSet, RuleSet.rules, List.mem_cons, List.not_mem_nil, or_false] at hr
  rcases hr with rfl | rfl | rfl | rfl
  all_goals exact writes_of_single rfl (hpermits _ (relates_slot _ _))

/-- The base of a field access is a child of it. -/
theorem Observation.relates_fieldArgument (ruleName : String) :
    (Observation.memoryAccessRule ruleName ((Pattern.construct .fieldExpression
      [.field .argument (Pattern.any.capture "arg")]).capture "root") .field).Relates "arg"
        fun main n => n ∈ main.children :=
  (relates_part ruleName .fieldExpression [(.argument, "arg")] (by decide) (by decide)).bind
    (by decide)

/-- A declarator of the file stands in a declaration right in it. -/
theorem Observation.means_fileDeclarator (ruleName : String) :
    (Rule.ofPattern ruleName (.construct .sourceUnit [Condition.eachDeclarator])).Means "root"
      fun n => ∃ decl file, n.parent? = some decl ∧ decl.kind = .declaration ∧
        decl.parent? = some file ∧ file.kind = .sourceUnit := by
  refine Rule.means_ofPattern _ fun n hn => ?_
  obtain ⟨file, ⟨hfile, ⟨hname, -⟩ | ⟨decl, hdecl, hbelow⟩⟩ | hnone⟩ := hn
  · exact absurd hname (by decide)
  · rcases hbelow with (⟨hkind, ⟨hname, -⟩ | ⟨c, hc, hbelow⟩⟩ | hnone) | hnone
    · exact absurd hname (by decide)
    · rcases hbelow with (⟨-, ⟨-, rfl⟩ | ⟨c', -, hnone⟩⟩ | hnone) | hnone
      · exact ⟨decl, file, Node.parent?_of_mem_children hc, hkind.kind _ rfl,
          Node.parent?_of_mem_children hdecl, hfile.kind _ rfl⟩
      all_goals exact hnone.elim
    all_goals exact hnone.elim
  · exact hnone.elim

theorem Observation.startOfMain_of_offers {ruleName : String} {p : Pattern} {s : Node}
    (hm : ((Rule.ofPattern ruleName p).bind "stmt" Condition.startOfMain).Offers u m)
    (hs : m.node? "stmt" = some s) : Condition.startOfMain m u = some s := by
  obtain ⟨m₀, n, -, hn, rfl⟩ := hm.of_bind
  rw [node?_bind_self (by decide)] at hs
  rwa [← Option.some.inj hs]

theorem Observation.writes_of_mem_memorySet (hr : r ∈ Observation.memorySet.rules) :
    r.Writes := by
  have hpermits {r : Rule} (access : Observation.AccessForm)
      (hslot : r.Relates "stmt" fun main s => main.slotAround? = some s)
      (harg : access = .field → r.Relates "arg" fun main n => n ∈ main.children) :
      r.Permits ⟨.before "stmt", Observation.memoryReference access⟩ :=
    permits_slot hslot fun _ hu hm hwithin =>
      Observation.gives_memoryReference access hu hwithin.root fun hfield _ hn =>
        harg hfield hu hm hn
  simp only [Observation.memorySet, RuleSet.rules, List.mem_cons, List.not_mem_nil, or_false] at hr
  rcases hr with rfl | rfl | rfl | rfl | rfl
  · exact writes_of_single rfl (hpermits .dereference (relates_slot _ _) (by rintro ⟨⟩))
  · exact writes_of_single rfl (hpermits .field (relates_slot _ _) fun _ =>
      Observation.relates_fieldArgument _)
  · exact writes_of_single rfl (hpermits .subscript (relates_slot _ _) (by rintro ⟨⟩))
  · refine writes_of_single rfl fun u t m accepted hu hm hwithin =>
      (Observation.gives_variableAddress (by decide) hu hwithin.root).mono (Wrote.mono ?_)
    intro exprs hexprs x hx
    obtain ⟨d, hd, rfl⟩ := hexprs x hx
    exact .inr ⟨d, hd, rfl, .inl rfl⟩
  · refine writes_of_single rfl fun u t m accepted hu hm hwithin =>
      (Observation.gives_variableAddress (by decide) hu hwithin.root).mono (Wrote.mono ?_)
    intro exprs hexprs x hx
    obtain ⟨d, hd, rfl⟩ := hexprs x hx
    have hplace := Observation.means_fileDeclarator "value-memory-global"
    exact .inr ⟨d, hd, rfl, .inr ⟨rfl, fun s hs => Observation.startOfMain_of_offers hm hs,
      (hplace.bind (by decide)) hu hm rfl⟩⟩

theorem Observation.writes_of_operands
    (hedits : r.edits = [⟨.before "stmt", Observation.integerOperands⟩])
    (hslot : r.Relates "stmt" fun main s => main.slotAround? = some s)
    (hparts : ∀ name ∈ ["left", "right"], r.Relates name fun main n => n ∈ main.children) :
    r.Writes :=
  writes_of_single hedits <| permits_slot hslot fun _ hu hm hwithin =>
    (Observation.gives_integerOperands hu hwithin.root fun name hname _ hn =>
      hparts name hname hu hm hn).mono (Wrote.mono fun _ h x hx => .inr (h x hx))

/-- The operands of an expression are children of it. -/
theorem Observation.relates_operands (ruleName : String) :
    ∀ name ∈ ["left", "right"], (Rule.ofPattern ruleName Observation.bothOperands).Relates name
      fun main n => n ∈ main.children := by
  intro name hname
  refine relates_part ruleName .binaryExpression [(.left, "left"), (.right, "right")] (by decide) ?_
  rintro rfl
  exact absurd hname (by decide)

theorem Observation.writes_integerRule : Observation.integerRule.Writes :=
  Observation.writes_of_operands rfl (relates_slot _ _) fun name hname =>
    (Observation.relates_operands "value-integer" name hname).bind (by
      rintro rfl
      exact absurd hname (by decide))

theorem Observation.writes_dividerRule : Observation.dividerRule.Writes :=
  Observation.writes_of_operands rfl (relates_slot _ _) fun name hname =>
    (Observation.relates_operands "value-divider" name hname).bind (by
      rintro rfl
      exact absurd hname (by decide))

theorem Observation.writes_arrayIndexRule : Observation.arrayIndexRule.Writes :=
  writes_of_single rfl <| permits_unseen fun _ _ hu hm =>
    Observation.gives_arrayReference hu fun _ _ hn => hm.node? hn

theorem Observation.writes_pointerIndexRule : Observation.pointerIndexRule.Writes :=
  writes_of_single rfl <| permits_unseen fun _ _ hu hm =>
    Observation.gives_pointerIndexReference hu fun _ _ hn => hm.node? hn

theorem Observation.writes_initRule : Observation.initRule.Writes :=
  writes_of_single rfl <| permits_unseen fun _ _ hu hm => Observation.gives_initReference hu hm.root

theorem Hooks.permits_closer {anchor : Anchor} {hook : Hooks.Hook} (known : hook ∈ Hooks.all) :
    r.Permits ⟨anchor, Hooks.closer hook⟩ :=
  permits_unseen fun cx m _ _ => Hooks.gives_closer cx m known

theorem Hooks.writes_of_wrapped {name : String} {hook : Hooks.Hook}
    (hedits : r.edits = [⟨.before name, .literal Hooks.opener⟩, ⟨.after name, Hooks.closer hook⟩])
    (known : hook ∈ Hooks.all) : r.Writes :=
  writes_of_pair hedits (permits_literal (by decide)) (Hooks.permits_closer known)

theorem Hooks.writes_integerRule : Hooks.integerRule.Writes :=
  writes_of_edits rfl <| List.forall_mem_cons.mpr ⟨permits_literal (by decide),
    List.forall_mem_cons.mpr ⟨Hooks.permits_closer (by decide),
      List.forall_mem_cons.mpr ⟨permits_literal (by decide),
        List.forall_mem_singleton.mpr (Hooks.permits_closer (by decide))⟩⟩⟩

theorem Hooks.writes_of_mem (hr : r ∈ Hooks.pointerSet.rules) : r.Writes := by
  simp only [Hooks.pointerSet, RuleSet.rules, List.mem_cons, List.not_mem_nil, or_false] at hr
  rcases hr with rfl | rfl
  all_goals exact Hooks.writes_of_wrapped rfl (by decide)

theorem Relocation.writes_relocationRule (lottery : Relocation.Lottery) :
    (Relocation.relocationRule lottery).Writes :=
  writes_of_pair rfl (permits_literal (by decide))
    (permits_unseen fun _ _ hu hm => Relocation.gives_redeclaration lottery hu hm.root)

theorem Relocation.writes_freeRule (lottery : Relocation.Lottery) :
    (Relocation.freeRule lottery).Writes :=
  writes_of_single rfl <| permits_unseen fun _ _ hu hm =>
    Relocation.gives_freeing lottery hu hm.root

/-- **Every edit of every rule** that goes through the file has one of the forms of inserted
text. -/
theorem Rule.Listed.writes (h : r.Listed) (hphase : r.phase = .traversal) : r.Writes := by
  cases h with
  | thenBranch => exact Braces.writes_wrapping rfl
  | elseBranch => exact Braces.writes_wrapping rfl
  | loopBody => exact Braces.writes_wrapping rfl
  | labelled mem => exact Braces.writes_of_mem mem
  | block => exact Tracing.writes_blockRule
  | declaration => exact Tracing.writes_declarationRule
  | site => exact Tracing.writes_siteRule
  | entry => exact Tracing.writes_entryRule
  | arrayIndex => exact Observation.writes_arrayIndexRule
  | pointerIndex => exact Observation.writes_pointerIndexRule
  | memory mem => exact Observation.writes_of_mem_memorySet mem
  | pointer mem => exact Observation.writes_of_mem_pointerSet mem
  | integer => exact Observation.writes_integerRule
  | divider => exact Observation.writes_dividerRule
  | init => exact Observation.writes_initRule
  | hookedIndex => exact Hooks.writes_of_wrapped rfl (by decide)
  | hookedPointer mem => exact Hooks.writes_of_mem mem
  | hookedOperands => exact Hooks.writes_integerRule
  | relocation lottery => exact Relocation.writes_relocationRule lottery
  | free lottery => exact Relocation.writes_freeRule lottery
  | flags | definitions | helpers => exact absurd hphase (by decide)

/-- **A late rule** writes lines of its own at the start of the file. -/
def Rule.Heads (r : Rule) : Prop :=
  ∃ makeText, r.edits = [⟨.startOfFile, makeText⟩] ∧
    ∀ cx m, Eval.Gives (makeText cx m) (WroteHeading r.name)

theorem Rule.Listed.heads (h : r.Listed) (hphase : r.phase = .late) : r.Heads := by
  cases h with
  | flags => exact ⟨_, rfl, Tracing.gives_flagLines⟩
  | definitions => exact ⟨_, rfl, Hooks.gives_definitions⟩
  | helpers => exact ⟨_, rfl, Relocation.gives_helperLines⟩
  | labelled mem =>
    simp only [Braces.labelSet, RuleSet.rules, List.mem_cons, List.not_mem_nil, or_false] at mem
    rcases mem with rfl | rfl <;> exact absurd hphase (by decide)
  | memory mem =>
    simp only [Observation.memorySet, RuleSet.rules, List.mem_cons, List.not_mem_nil,
      or_false] at mem
    rcases mem with rfl | rfl | rfl | rfl | rfl <;> exact absurd hphase (by decide)
  | pointer mem =>
    simp only [Observation.pointerSet, RuleSet.rules, List.mem_cons, List.not_mem_nil,
      or_false] at mem
    rcases mem with rfl | rfl | rfl | rfl <;> exact absurd hphase (by decide)
  | hookedPointer mem =>
    simp only [Hooks.pointerSet, RuleSet.rules, List.mem_cons, List.not_mem_nil, or_false] at mem
    rcases mem with rfl | rfl <;> exact absurd hphase (by decide)
  | relocation lottery | free lottery => cases hphase
  | thenBranch | elseBranch | loopBody | block | declaration | site | entry | arrayIndex
    | pointerIndex | integer | divider | init | hookedIndex | hookedOperands =>
    exact absurd hphase (by decide)

end ProbeWeaver
