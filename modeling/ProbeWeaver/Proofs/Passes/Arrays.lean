import ProbeWeaver.Proofs.Passes.Writes
import ProbeWeaver.Proofs.Rule.Matches

/-!
# Proofs/Passes/Arrays — what the stack-to-heap pass does

The pass renames each eligible array outside `main` and gives its old name a meaning behind the
declaration: a heap copy, or a definition that forwards the name.  Before a return outside `main` it
frees the copies in scope.  What it does about one main node is a `Work`.

* `mem_matchesIn_relocationRule`, `mem_matchesIn_freeRule` — which nodes the rules are about.
* `gives_work` — each visit on the way through a file does work that is due.
* `account_of_visits` — all visits together do all of it.
-/

namespace ProbeWeaver

open Node (PlaceOf)

variable {t : Tree} {u : SourceUnit} {n decl ret : Node} {d d' : Declarator} {source : String}

/-! ## Declarators as they stand -/

namespace Declarator

/-- The kinds of constructs that declare a name. -/
def declaringKinds : List Kind :=
  nameKinds ++ [.initDeclarator, .attributedDeclarator, .pointerDeclarator,
    .abstractPointerDeclarator, .arrayDeclarator, .abstractArrayDeclarator, .functionDeclarator,
    .abstractFunctionDeclarator, .parenthesizedDeclarator, .abstractParenthesizedDeclarator]

theorem kind_mem_declaringKinds {base : CType} {name : Node}
    (h : (peel source n base).1 = some name) : n.kind ∈ declaringKinds := by
  rw [peel] at h
  split at h
  all_goals first
    | (rw [‹n.kind = _›]; decide)
    | contradiction

theorem exists_of_mem_declarators (hd : d ∈ declarators source decl) :
    d.node ∈ decl.fillers .declarator ∧ d.node.kind ∈ declaringKinds := by
  obtain ⟨hfills, base, hpeel⟩ := exists_peel_of_mem_declarators hd
  exact ⟨hfills, kind_mem_declaringKinds hpeel⟩

/-- **A declaration has one declarator at a place.** -/
theorem eq_of_mem_declarators (hd : d ∈ declarators source decl)
    (hd' : d' ∈ declarators source decl) (h : d.node = d'.node) : d = d' := by
  obtain ⟨n, -, hn⟩ := List.mem_filterMap.mp hd
  obtain ⟨n', -, hn'⟩ := List.mem_filterMap.mp hd'
  obtain ⟨named, hnamed, rfl⟩ := Option.map_eq_some_iff.mp hn
  obtain ⟨named', hnamed', rfl⟩ := Option.map_eq_some_iff.mp hn'
  obtain rfl : n = n' := h
  obtain rfl := Option.some.inj (hnamed.symm.trans hnamed')
  rfl

end Declarator

/-- **A declarator is found** at its place. -/
theorem SourceUnit.declarator?_of_mem (hd : d ∈ u.declarators decl) :
    d.node.parent? = some decl ∧ u.declarator? d.node = some d := by
  have hchild {e : Declarator} (he : e ∈ u.declarators decl) : e.node ∈ decl.children :=
    (List.mem_filter.mp (Declarator.exists_of_mem_declarators he).1).1
  have hparent := Node.parent?_of_mem_children (hchild hd)
  refine ⟨hparent, ?_⟩
  rw [declarator?, hparent]
  show (u.declarators decl).find? _ = some d
  cases hfind : (u.declarators decl).find? fun e => e.node.sameAs d.node with
  | none => exact absurd d.node.sameAs_self (List.find?_eq_none.mp hfind d hd)
  | some e =>
    have he := List.mem_of_find?_eq_some hfind
    have hsame := List.find?_some hfind
    have hnode : e.node = d.node := Node.eq_of_mem_children (hchild he) (hchild hd) hsame
    rw [Declarator.eq_of_mem_declarators he hd hnode]

namespace Relocation

/-! ## Main nodes -/

/-- **What makes a declarator eligible**: where it stands, and what type it gives. -/
theorem isEligible_iff (hd : d ∈ u.declarators decl) : isEligible u d.node = true ↔
    (∃ block, decl.parent? = some block ∧ block.kind = .compoundStatement) ∧
      "extern" ∉ Declarator.storageWords u.source decl ∧ d.type.isArray = true ∧
        d.type.arrayRank ≤ mostDimensions ∧ d.type.spellsConst = false := by
  obtain ⟨hparent, hfound⟩ := SourceUnit.declarator?_of_mem hd
  rw [isEligible, hparent, SourceUnit.typeGiven?, hfound, Option.map_some]
  dsimp only
  cases decl.parent? with
  | none => simp
  | some block =>
    simp [isEligibleType, List.contains_eq_mem, and_assoc]

/-- **An array that the pass renames**, with its declaration. -/
structure Renamed (u : SourceUnit) (d : Declarator) (decl : Node) : Prop where
  place : decl ∈ u.root.walk
  kind : decl.kind = .declaration
  declares : d ∈ u.declarators decl
  eligible : isEligible u d.node = true
  spelled : d.node.isSpelledInFile = true
  outside : u.withinMain d.node = false

/-- **A return outside `main`.** -/
structure Leaves (u : SourceUnit) (ret : Node) : Prop where
  place : ret ∈ u.root.walk
  kind : ret.kind = .returnStatement
  spelled : ret.isSpelledInFile = true
  outside : u.withinMain ret = false

/-- The match about an array. -/
def arrayMatch (d : Declarator) (decl : Node) : Match :=
  ⟨"heap-relocate", d.node, [("name", d.name), ("decl", decl), ("root", d.node)]⟩

/-- The match about a return. -/
def returnMatch (ret : Node) : Match := ⟨"heap-free", ret, [("root", ret)]⟩

theorem accept?_relocationRule_iff {lottery : Lottery} {m : Match} :
    (relocationRule lottery).accept? u ⟨n, [("root", n)]⟩ = some m ↔
      ∃ d decl, n.parent? = some decl ∧ u.declarator? n = some d ∧ isEligible u n = true ∧
        n.isSpelledInFile = true ∧ u.withinMain n = false ∧
          m = ⟨"heap-relocate", n, [("name", d.name), ("decl", decl), ("root", n)]⟩ := by
  have haccept : (relocationRule lottery).accept? u ⟨n, [("root", n)]⟩ =
      n.parent?.bind fun decl => (u.declarator? n).bind fun d =>
        if n.isSpelledInFile && (!u.withinMain n && (isEligible u n && true)) then
          some ⟨"heap-relocate", n, [("name", d.name), ("decl", decl), ("root", n)]⟩
        else none := by
    have hfinders : Rule.bindAll u (relocationRule lottery).finders
        ⟨"heap-relocate", n, [("root", n)]⟩ =
          n.parent?.bind fun decl => ((u.declarator? n).map (·.name)).bind fun name =>
            some ⟨"heap-relocate", n, [("name", name), ("decl", decl), ("root", n)]⟩ := rfl
    show (Rule.bindAll u (relocationRule lottery).finders
      ⟨"heap-relocate", n, [("root", n)]⟩).bind _ = _
    rw [hfinders]
    cases n.parent? with
    | none => rfl
    | some decl => cases u.declarator? n <;> rfl
  rw [haccept]
  simp only [Option.bind_eq_some_iff, Option.ite_none_right_eq_some, Bool.and_eq_true_iff,
    Bool.not_eq_true', and_true, Option.some.injEq]
  constructor
  · rintro ⟨decl, hdecl, d, hd, ⟨hspelled, houtside, heligible⟩, hm⟩
    exact ⟨d, decl, hdecl, hd, heligible, hspelled, houtside, hm.symm⟩
  · rintro ⟨d, decl, hdecl, hd, heligible, hspelled, houtside, hm⟩
    exact ⟨decl, hdecl, d, hd, ⟨hspelled, houtside, heligible⟩, hm.symm⟩

/-- **The rule of relocation is about the renamed arrays.** -/
theorem mem_matchesIn_relocationRule (hu : u.root = .root t) {lottery : Lottery} {ms : List Match}
    (h : (relocationRule lottery).matchesIn u = .ok ms) {m : Match} :
    m ∈ ms ↔ ∃ d decl, Renamed u d decl ∧ m = arrayMatch d decl := by
  rw [Rule.mem_matchesIn_iff rfl Condition.plain_eachDeclarator hu h]
  constructor
  · rintro ⟨n, ⟨decl', hplace, hkind, hn, -⟩, haccept⟩
    obtain ⟨d, decl, hdecl, hd, heligible, hspelled, houtside, rfl⟩ :=
      accept?_relocationRule_iff.mp haccept
    have hchild : n ∈ decl'.children := (List.mem_filter.mp hn).1
    obtain rfl := Option.some.inj (hdecl.symm.trans (Node.parent?_of_mem_children hchild))
    obtain ⟨decl', hdecl', hfind⟩ := Option.bind_eq_some_iff.mp hd
    obtain rfl := Option.some.inj (hdecl.symm.trans hdecl')
    have hmem := List.mem_of_find?_eq_some hfind
    have hsame : d.node.sameAs n = true :=
      List.find?_some (p := fun d : Declarator => d.node.sameAs n) hfind
    obtain rfl : d.node = n := Node.eq_of_mem_children
      (List.mem_filter.mp (Declarator.exists_of_mem_declarators hmem).1).1 hchild hsame
    exact ⟨d, decl, ⟨hplace, hkind, hmem, heligible, hspelled, houtside⟩, rfl⟩
  · rintro ⟨d, decl, hrenamed, rfl⟩
    obtain ⟨hparent, hfound⟩ := SourceUnit.declarator?_of_mem hrenamed.declares
    obtain ⟨hfills, hkind⟩ := Declarator.exists_of_mem_declarators hrenamed.declares
    have hnamed : ∀ k ∈ Declarator.declaringKinds, k.isNamed = true := by decide
    exact ⟨d.node, ⟨decl, hrenamed.place, hrenamed.kind, hfills, hnamed _ hkind⟩,
      accept?_relocationRule_iff.mpr ⟨d, decl, hparent, hfound, hrenamed.eligible,
        hrenamed.spelled, hrenamed.outside, rfl⟩⟩

/-- **The rule of freeing is about the returns outside `main`.** -/
theorem mem_matchesIn_freeRule (hu : u.root = .root t) {lottery : Lottery} {ms : List Match}
    (h : (freeRule lottery).matchesIn u = .ok ms) {m : Match} :
    m ∈ ms ↔ ∃ ret, Leaves u ret ∧ m = returnMatch ret := by
  rw [Rule.mem_matchesIn_iff rfl (Condition.plain_anyOf .returnStatement) hu h]
  have haccept (n : Node) : (freeRule lottery).accept? u ⟨n, [("root", n)]⟩ =
      if n.isSpelledInFile && (!u.withinMain n && true) then some (returnMatch n) else none := rfl
  simp only [haccept, Option.ite_none_right_eq_some, Bool.and_eq_true_iff, Bool.not_eq_true',
    and_true, Option.some.injEq]
  constructor
  · rintro ⟨ret, ⟨hplace, hkind⟩, ⟨hspelled, houtside⟩, rfl⟩
    exact ⟨ret, ⟨hplace, hkind, hspelled, houtside⟩, rfl⟩
  · rintro ⟨ret, hret, rfl⟩
    exact ⟨ret, ⟨hret.place, hret.kind⟩, ⟨hret.spelled, hret.outside⟩, rfl⟩

/-! ## Work -/

/-- **What the pass does about a main node**: it renames an array and makes a heap copy with a
number, or forwards the name; or it frees arrays before a return, each with a number. -/
inductive Work where
  | move (d : Declarator) (decl : Node) (number? : Option Nat)
  | free (ret : Node) (calls : List (Nat × Declarator))

/-- What stands behind the declaration of a renamed array. -/
def redeclared (u : SourceUnit) (d : Declarator) : Option Nat → String
  | some id => heapCopy id (u.text d.name) d.type (d.node.kind == .initDeclarator)
  | none => forwarding (u.text d.name)

/-- Calls that free arrays. -/
def callsText (u : SourceUnit) (calls : List (Nat × Declarator)) : String :=
  String.join (calls.map fun call => freeCall call.1 (u.text call.2.name) call.2.type)

namespace Work

/-- The main node. -/
def place : Work → Node
  | move d _ _ => d.node
  | free ret _ => ret

/-- The edits. -/
def edits (u : SourceUnit) : Work → List Edit
  | move d decl number? =>
    [⟨d.name.start, 0, "MUT_"⟩, ⟨decl.stop, 0, redeclared u d number?⟩]
  | free _ [] => []
  | free ret calls => [⟨ret.start, 0, callsText u calls⟩]

/-- **The work that the pass has to do**: a renamed array is copied when it is relocated, and before
a return those in scope are freed that the return does not name. -/
def IsDue (lottery : Lottery) (u : SourceUnit) : Work → Prop
  | move d decl number? =>
    Renamed u d decl ∧ number?.isSome = isRelocated u lottery d.node d.type
  | free ret calls =>
    Leaves u ret ∧ calls.map Prod.snd = (arraysInScope u lottery ret).filter fun d =>
      !(returnedNames u ret).contains (u.text d.name)

end Work

end Relocation

/-- **The edits of templates in turn**: that of the first, if it makes a text, and the others. -/
theorem Rule.gives_editsOfTemplates_cons {cx : EditContext} {m : Match} {e : EditTemplate}
    {ts : List EditTemplate} {offset length : Nat} {P : Option String → List Draw → Prop}
    {Q : List Edit → List Draw → Prop} (hrange : anchorRange m e.anchor = .ok (offset, length))
    (htext : Eval.Gives (e.makeText cx m) P) (hrest : Eval.Gives (editsOfTemplates cx m ts) Q) :
    Eval.Gives (editsOfTemplates cx m (e :: ts)) fun edits _ => ∃ text? draws rest more,
      P text? draws ∧ Q rest more ∧
        edits = (text?.map fun text => ⟨offset, length, text⟩).toList ++ rest := by
  refine (Eval.gives_lift _).bind fun range _ hlift => ?_
  obtain rfl := Except.ok.inj (hlift.1.symm.trans hrange)
  refine htext.bind fun text? draws hP => ?_
  cases text? with
  | none => exact hrest.mono fun rest more hQ => ⟨none, draws, rest, more, hP, hQ, rfl⟩
  | some text =>
    exact hrest.bind fun rest more hQ => Eval.gives_pure ⟨some text, draws, rest, more, hP, hQ, rfl⟩

namespace Relocation

theorem gives_relocation {lottery : Lottery} (accepted : EditSet) (h : Renamed u d decl) :
    Eval.Gives ((relocationRule lottery).editsOf ⟨u, accepted⟩ (arrayMatch d decl)) fun edits _ =>
      ∃ number?, (Work.move d decl number?).IsDue lottery u ∧
        edits = (Work.move d decl number?).edits u := by
  have hfound := (SourceUnit.declarator?_of_mem h.declares).2
  have htext : Eval.Gives (redeclaration lottery ⟨u, accepted⟩ (arrayMatch d decl))
      fun text? _ => ∃ number?, number?.isSome = isRelocated u lottery d.node d.type ∧
        text? = some (redeclared u d number?) := by
    rw [redeclaration]
    simp only [arrayMatch, hfound]
    refine Eval.gives_ite (fun hmoves => ?_) fun hstays => Eval.gives_pure ⟨none, ?_, rfl⟩
    · exact (Eval.gives_draw .heap).bind fun id _ _ => Eval.gives_pure ⟨some id, hmoves.symm, rfl⟩
    · exact (Bool.eq_false_iff.mpr hstays).symm
  have hname : Eval.Gives (EditText.literal "MUT_" ⟨u, accepted⟩ (arrayMatch d decl))
      fun text? _ => text? = some "MUT_" := Eval.gives_pure rfl
  have hnothing : Eval.Gives (Rule.editsOfTemplates ⟨u, accepted⟩ (arrayMatch d decl) [])
      fun edits _ => edits = [] := Eval.gives_pure rfl
  refine (Rule.gives_editsOfTemplates_cons rfl hname
    (Rule.gives_editsOfTemplates_cons rfl htext hnothing)).mono fun edits _ hedits => ?_
  obtain ⟨_, -, _, -, rfl, ⟨_, -, _, -, ⟨number?, hnumber, rfl⟩, rfl, rfl⟩, rfl⟩ := hedits
  exact ⟨number?, ⟨h, hnumber⟩, rfl⟩

theorem gives_freeing_returnMatch {lottery : Lottery} (accepted : EditSet) (h : Leaves u ret) :
    Eval.Gives ((freeRule lottery).editsOf ⟨u, accepted⟩ (returnMatch ret)) fun edits _ =>
      ∃ calls, (Work.free ret calls).IsDue lottery u ∧ edits = (Work.free ret calls).edits u := by
  have htext : Eval.Gives (freeing lottery ⟨u, accepted⟩ (returnMatch ret)) fun text? _ =>
      ∃ calls, (Work.free ret calls).IsDue lottery u ∧
        text? = if calls.isEmpty then none else some (callsText u calls) := by
    rw [freeing]
    refine Eval.gives_ite (fun hnone => Eval.gives_pure ⟨[], ⟨h, ?_⟩, rfl⟩) fun hsome => ?_
    · exact (List.isEmpty_iff.mp hnone).symm
    · refine (gives_freeCalls u _).bind fun text _ hcalls => Eval.gives_pure ?_
      obtain ⟨calls, hcalls, -, rfl⟩ := hcalls
      refine ⟨calls, ⟨h, hcalls⟩, ?_⟩
      have hne : calls.isEmpty = false := by
        rw [← hcalls, List.isEmpty_map] at hsome
        exact Bool.eq_false_iff.mpr hsome
      rw [hne]
      rfl
  have hnothing : Eval.Gives (Rule.editsOfTemplates ⟨u, accepted⟩ (returnMatch ret) [])
      fun edits _ => edits = [] := Eval.gives_pure rfl
  refine (Rule.gives_editsOfTemplates_cons rfl htext hnothing).mono fun edits _ hedits => ?_
  obtain ⟨_, -, _, -, ⟨calls, hdue, rfl⟩, rfl, rfl⟩ := hedits
  refine ⟨calls, hdue, ?_⟩
  cases calls <;> rfl

/-! ## Visits -/

/-- **What the pass visits** on its way through a file: renamed arrays, and the returns outside
`main` if it is to free. -/
theorem mem_visits_cases {config : RelocationConfig} {vs : List Visit} {v : Visit}
    (hu : u.root = .root t) (hvs : (pass config).visits u .traversal = .ok vs) (hv : v ∈ vs) :
    (v.rule = relocationRule (.of config) ∧ ∃ d decl, Renamed u d decl ∧
      v.found = arrayMatch d decl) ∨
    (v.rule = freeRule (.of config) ∧ ∃ ret, Leaves u ret ∧ v.found = returnMatch ret) := by
  obtain ⟨hr, ms, hms, hfound⟩ := Pass.mem_visits hvs hv
  have hphase := Pass.phase_of_mem_visits hvs hv
  obtain ⟨s, hs, hr⟩ := List.mem_flatMap.mp hr
  simp only [pass, List.mem_append, List.mem_cons, List.not_mem_nil, or_false] at hs
  rcases hs with (rfl | hs) | rfl
  · have hrule := RuleSet.eq_of_mem_single hr
    rw [hrule] at hms
    exact .inl ⟨hrule, (mem_matchesIn_relocationRule hu hms).mp hfound⟩
  · split at hs
    · obtain rfl := List.mem_singleton.mp hs
      have hrule := RuleSet.eq_of_mem_single hr
      rw [hrule] at hms
      exact .inr ⟨hrule, (mem_matchesIn_freeRule hu hms).mp hfound⟩
    · exact absurd hs List.not_mem_nil
  · rw [RuleSet.eq_of_mem_single hr] at hphase
    contradiction

/-- **Each visit does work** that is due. -/
theorem gives_work {config : RelocationConfig} {vs : List Visit} {v : Visit}
    (hu : u.root = .root t) (hvs : (pass config).visits u .traversal = .ok vs) (hv : v ∈ vs)
    (accepted : EditSet) :
    Eval.Gives (v.rule.editsOf ⟨u, accepted⟩ v.found) fun edits _ => ∃ w : Work,
      w.place = v.found.root ∧ w.IsDue (.of config) u ∧ edits = w.edits u := by
  rcases mem_visits_cases hu hvs hv with ⟨hrule, d, decl, hd, hfound⟩ | ⟨hrule, ret, hret, hfound⟩
  · rw [hrule, hfound]
    refine (gives_relocation accepted hd).mono fun edits _ ⟨number?, hdue, hedits⟩ => ?_
    exact ⟨.move d decl number?, rfl, hdue, hedits⟩
  · rw [hrule, hfound]
    refine (gives_freeing_returnMatch accepted hret).mono fun edits _ ⟨calls, hdue, hedits⟩ => ?_
    exact ⟨.free ret calls, rfl, hdue, hedits⟩

/-- The rules of the pass can list their matches. -/
theorem exists_matchesIn {config : RelocationConfig} {r : Rule} (hu : u.root = .root t)
    (hr : .single r ∈ (pass config).sets) : ∃ ms, r.matchesIn u = .ok ms := by
  have hlisted : r.Listed := listed_of_mem hr (by rw [RuleSet.rules]; exact List.mem_cons_self)
  obtain ⟨ms, hms, -⟩ := hlisted.insertive.exists_matchesIn hu
  exact ⟨ms, hms⟩

theorem exists_visit_of_renamed {config : RelocationConfig} {vs : List Visit}
    (hu : u.root = .root t) (hvs : (pass config).visits u .traversal = .ok vs)
    (hd : Renamed u d decl) : ∃ v ∈ vs, v.found.root = d.node := by
  have hset : .single (relocationRule (.of config)) ∈ (pass config).sets :=
    List.mem_append_left _ (List.mem_append_left _ (List.mem_singleton.mpr rfl))
  obtain ⟨ms, hms⟩ := exists_matchesIn hu hset
  obtain ⟨index, hv⟩ := Pass.exists_mem_visits hvs hset hms
    ((mem_matchesIn_relocationRule hu hms).mpr ⟨d, decl, hd, rfl⟩)
  exact ⟨_, hv, rfl⟩

theorem exists_visit_of_leaves {config : RelocationConfig} {vs : List Visit}
    (hu : u.root = .root t) (hvs : (pass config).visits u .traversal = .ok vs)
    (hfrees : config.freeOnReturn = true) (hret : Leaves u ret) :
    ∃ v ∈ vs, v.found.root = ret := by
  have hset : .single (freeRule (.of config)) ∈ (pass config).sets := by
    simp [pass, hfrees]
  obtain ⟨ms, hms⟩ := exists_matchesIn hu hset
  obtain ⟨index, hv⟩ := Pass.exists_mem_visits hvs hset hms
    ((mem_matchesIn_freeRule hu hms).mpr ⟨ret, hret, rfl⟩)
  exact ⟨_, hv, rfl⟩

theorem Renamed.placeOf (hu : u.root = .root t) (hd : Renamed u d decl) :
    decl.PlaceOf t ∧ d.node.PlaceOf t := by
  have hdecl : decl.PlaceOf t := (Node.placeOf_root t).of_mem_walk (hu ▸ hd.place)
  exact ⟨hdecl, hdecl.of_mem_fillers (Declarator.exists_of_mem_declarators hd.declares).1⟩

theorem Leaves.placeOf (hu : u.root = .root t) (hret : Leaves u ret) : ret.PlaceOf t :=
  (Node.placeOf_root t).of_mem_walk (hu ▸ hret.place)

/-- A declarator is no return. -/
theorem Renamed.node_ne (hd : Renamed u d decl) (hret : Leaves u ret) : d.node ≠ ret := by
  rintro rfl
  have hkind := (Declarator.exists_of_mem_declarators hd.declares).2
  rw [hret.kind] at hkind
  exact absurd hkind (by decide)

/-- **The visits** are about different nodes. -/
theorem apart_visits {config : RelocationConfig} {vs : List Visit} (hu : u.root = .root t)
    (hvs : (pass config).visits u .traversal = .ok vs) : Visit.Apart vs := by
  have hmatch {r : Rule} {v : Visit} (hv : v.IsFrom u (RuleSet.single r).rules) :
      ∃ ms, r.matchesIn u = .ok ms ∧ v.found ∈ ms := by
    obtain ⟨hr, ms, hms, hfound⟩ := hv
    exact ⟨ms, RuleSet.eq_of_mem_single hr ▸ hms, hfound⟩
  have hapart : ∀ v w : Visit, v.IsFrom u (RuleSet.single (relocationRule (.of config))).rules →
      w.IsFrom u (RuleSet.single (freeRule (.of config))).rules →
        v.found.root.sameAs w.found.root = false := by
    intro v w hv hw
    obtain ⟨ms, hms, hv⟩ := hmatch hv
    obtain ⟨ms', hms', hw⟩ := hmatch hw
    obtain ⟨d, decl, hd, hv⟩ := (mem_matchesIn_relocationRule hu hms).mp hv
    obtain ⟨ret, hret, hw⟩ := (mem_matchesIn_freeRule hu hms').mp hw
    rw [hv, hw]
    exact Bool.eq_false_iff.mpr fun hsame =>
      hd.node_ne hret ((hd.placeOf hu).2.eq_of_sameAs (hret.placeOf hu) hsame)
  refine Pass.apart_visits hvs rfl (fun hphase => nomatch hphase) (fun s hs base vs hvs => ?_) ?_
  · obtain ⟨r, rfl⟩ : ∃ r, s = .single r := by
      rcases List.mem_append.mp hs with hs | hs
      · exact ⟨_, List.mem_singleton.mp hs⟩
      · split at hs
        · exact ⟨_, List.mem_singleton.mp hs⟩
        · exact absurd hs List.not_mem_nil
    rw [RuleSet.visits] at hvs
    exact RuleSet.apart_visitsOf hvs
  · split
    · exact List.pairwise_pair.mpr hapart
    · exact List.pairwise_singleton _ _

/-! ## All work in a file -/

/-- **The work of the pass in a file**: what is due, at each main node once, and nothing else. -/
structure Account (config : RelocationConfig) (u : SourceUnit) (works : List Work) : Prop where
  due : ∀ w ∈ works, w.IsDue (.of config) u
  moves : ∀ d decl, Renamed u d decl → ∃ number?, Work.move d decl number? ∈ works
  frees : config.freeOnReturn = true → ∀ ret, Leaves u ret → ∃ calls, Work.free ret calls ∈ works
  once : works.Pairwise fun v w => v.place.sameAs w.place = false

/-- Work that is due at a renamed array moves it. -/
theorem Work.IsDue.eq_move {lottery : Lottery} {w : Work} (h : w.IsDue lottery u)
    (hd : Renamed u d decl) (hplace : w.place = d.node) : ∃ number?, w = .move d decl number? := by
  cases w with
  | move d' decl' number? =>
    have hnode : d'.node = d.node := hplace
    have hparent := (SourceUnit.declarator?_of_mem h.1.declares).1
    rw [hnode, (SourceUnit.declarator?_of_mem hd.declares).1] at hparent
    obtain rfl := Option.some.inj hparent
    obtain rfl := Declarator.eq_of_mem_declarators h.1.declares hd.declares hnode
    exact ⟨number?, rfl⟩
  | free ret calls => exact absurd hplace.symm (hd.node_ne h.1)

/-- Work that is due at a return frees. -/
theorem Work.IsDue.eq_free {lottery : Lottery} {w : Work} (h : w.IsDue lottery u)
    (hret : Leaves u ret) (hplace : w.place = ret) : ∃ calls, w = .free ret calls := by
  cases w with
  | move d decl number? => exact absurd hplace (h.1.node_ne hret)
  | free ret' calls => exact ⟨calls, by rw [show ret' = ret from hplace]⟩

/-- **The visits of a file** account for it. -/
theorem account_of_visits {config : RelocationConfig} {vs : List Visit}
    (mine : List (Visit × Work)) (hu : u.root = .root t)
    (hvs : (pass config).visits u .traversal = .ok vs) (hmine : mine.map Prod.fst = vs)
    (hworks : ∀ p ∈ mine, p.2.place = p.1.found.root ∧ p.2.IsDue (.of config) u) :
    Account config u (mine.map Prod.snd) := by
  have hwork {v : Visit} (hv : v ∈ vs) :
      ∃ w ∈ mine.map Prod.snd, w.place = v.found.root ∧ w.IsDue (.of config) u := by
    rw [← hmine] at hv
    obtain ⟨p, hp, rfl⟩ := List.mem_map.mp hv
    exact ⟨p.2, List.mem_map_of_mem hp, hworks p hp⟩
  refine ⟨fun w hw => ?_, fun d decl hd => ?_, fun hfrees ret hret => ?_, ?_⟩
  · obtain ⟨p, hp, rfl⟩ := List.mem_map.mp hw
    exact (hworks p hp).2
  · obtain ⟨v, hv, hroot⟩ := exists_visit_of_renamed hu hvs hd
    obtain ⟨w, hw, hplace, hdue⟩ := hwork hv
    obtain ⟨number?, rfl⟩ := hdue.eq_move hd (hplace.trans hroot)
    exact ⟨number?, hw⟩
  · obtain ⟨v, hv, hroot⟩ := exists_visit_of_leaves hu hvs hfrees hret
    obtain ⟨w, hw, hplace, hdue⟩ := hwork hv
    obtain ⟨calls, rfl⟩ := hdue.eq_free hret (hplace.trans hroot)
    exact ⟨calls, hw⟩
  · have hapart := apart_visits hu hvs
    rw [← hmine] at hapart
    refine List.pairwise_map.mpr ((List.pairwise_map.mp hapart).imp_of_mem ?_)
    intro p q hp hq hne
    rw [(hworks p hp).1, (hworks q hq).1]
    exact hne

namespace Account

variable {config : RelocationConfig} {works : List Work}

/-- **A renamed array is copied** when it is relocated. -/
theorem exists_copy (h : Account config u works) (hd : Renamed u d decl)
    (hmoves : isRelocated u (.of config) d.node d.type = true) :
    ∃ id, Work.move d decl (some id) ∈ works := by
  obtain ⟨number?, hmove⟩ := h.moves d decl hd
  obtain ⟨id, rfl⟩ := Option.isSome_iff_exists.mp ((h.due _ hmove).2.trans hmoves)
  exact ⟨id, hmove⟩

/-- **A renamed array is forwarded** when it is not. -/
theorem forward_mem (h : Account config u works) (hd : Renamed u d decl)
    (hstays : isRelocated u (.of config) d.node d.type = false) : Work.move d decl none ∈ works := by
  obtain ⟨number?, hmove⟩ := h.moves d decl hd
  cases number? with
  | none => exact hmove
  | some id => exact nomatch (h.due _ hmove).2.trans hstays

/-- **What is freed before a return**: the relocated arrays in scope that the return does not name. -/
theorem calls_eq (h : Account config u works) {calls : List (Nat × Declarator)}
    (hfree : Work.free ret calls ∈ works) : Leaves u ret ∧
      calls.map Prod.snd = (arraysInScope u (.of config) ret).filter fun d =>
        !(returnedNames u ret).contains (u.text d.name) :=
  h.due _ hfree

/-- **One work** at each main node. -/
theorem eq_of_place (h : Account config u works) {v w : Work} (hv : v ∈ works) (hw : w ∈ works)
    (hplace : v.place = w.place) : v = w := by
  have : Std.Symm fun v w : Work => v.place.sameAs w.place = false :=
    ⟨fun v w hvw => (Bool.beq_comm (a := w.place.path)).trans hvw⟩
  by_contra hne
  have hapart := h.once.forall hv hw hne
  rw [hplace, Node.sameAs_self] at hapart
  contradiction

end Account

end Relocation

end ProbeWeaver
