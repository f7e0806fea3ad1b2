import ProbeWeaver.Proofs.Tree.Headers
import ProbeWeaver.Proofs.Typing.Scoping

/-!
# Proofs/Typing/Binding — which declaration a use is bound to

In C the file, a function, a list of parameters, and each block are scopes; selection and iteration
statements and what they govern are blocks, case groups and labelled statements are not.  A name
belongs to the innermost scope that it is declared in (`Node.scope?`), from the end of its
declarator on, and a use is bound to the declaration that is visible there and hides the others
(`Scoping.Binds`).
-/

namespace ProbeWeaver

open Node (PlaceOf)

variable {t : Tree} {source : String} {m n a c s : Node} {start : Nat}

/-! ## Scopes -/

namespace Node

/-- The kinds of statements that are blocks. -/
def blockKinds : List Kind :=
  [.compoundStatement, .ifStatement, .switchStatement, .forStatement, .whileStatement, .doStatement]

/-- What a `switch` governs. -/
def isSwitched (n : Node) : Bool :=
  n.parent?.any fun p => p.kind == .switchStatement && p.fillsField .body n

/-- **A block**: the file, a braced block, a selection or iteration statement, or what one
governs. -/
def isBlock (n : Node) : Bool :=
  n.parent?.isNone || blockKinds.contains n.kind || n.isBody || n.isSwitched

/-- The parameters of the function that is defined. -/
def ownList? (n : Node) : Option Node :=
  if n.kind = .functionDefinition then (n.field? .declarator).bind Declarator.ownParameters?
  else none

/-- Parameters of a function that is not defined there. -/
def isPrototype (n : Node) : Bool :=
  n.kind == .other "parameter_list" && !n.ancestors.any fun f => (ownList? f).any (·.sameAs n)

/-- **A name declared at a place belongs to the scope**, unless there is one further in: it is a
block or the parameters of another function, or the function whose parameter is declared. -/
def owns (s n : Node) : Bool :=
  s.isBlock || s.isPrototype || s.kind == .functionDefinition &&
    ((ownList? s).any (n.isWithin ·) ||
      s.children.any fun c => c.kind == .declaration && n.isWithin c)

theorem owns_of_isBody (h : s.isBody = true) : s.owns n = true := by
  simp only [owns, isBlock, h, Bool.or_true, Bool.true_or]

/-- **The scope that a name declared at the place belongs to.** -/
def scope? (n : Node) : Option Node := (n :: n.ancestors).find? (·.owns n)

/-- The scope of a name encloses it. -/
theorem isWithin_scope? (h : n.scope? = some s) : n.isWithin s = true := by
  rcases List.mem_cons.mp (List.mem_of_find?_eq_some h) with rfl | h
  · exact isWithin_self s
  · exact isWithin_of_mem_ancestors h

theorem owns_of_scope? (h : n.scope? = some s) : s.owns n = true := by
  obtain ⟨howns, -⟩ := List.find?_eq_some_iff_append.mp h
  exact howns

theorem PlaceOf.of_scope? (hn : n.PlaceOf t) (h : n.scope? = some s) : s.PlaceOf t := by
  rcases List.mem_cons.mp (List.mem_of_find?_eq_some h) with rfl | h
  · exact hn
  · exact hn.of_mem_ancestors h

/-- **What encloses a name** encloses its scope too, or does not own the name. -/
theorem PlaceOf.scope?_isWithin_or (hn : n.PlaceOf t) (hc : c.PlaceOf t) (h : n.scope? = some s)
    (hwithin : n.isWithin c = true) : s.isWithin c = true ∨ c.owns n = false := by
  obtain ⟨-, inner, outer, hlist, hinner⟩ := List.find?_eq_some_iff_append.mp h
  have houter : s.ancestors = outer := by
    cases inner with
    | nil =>
      obtain ⟨rfl, hrest⟩ := List.cons.inj hlist
      exact hrest
    | cons _ inner => exact ancestors_of_ancestors_eq (List.cons.inj hlist).2
  have hmem : c ∈ inner ++ s :: outer :=
    hlist ▸ List.mem_cons.mpr ((hn.isWithin_iff_mem hc).mp hwithin)
  rcases List.mem_append.mp hmem with hmem | hmem
  · exact .inr (by simpa using hinner c hmem)
  · rcases List.mem_cons.mp hmem with rfl | hmem
    · exact .inl (isWithin_self c)
    · exact .inl (isWithin_of_mem_ancestors (houter ▸ hmem))

end Node

/-! ## Declared names -/

theorem Declarator.peel_fst_eq_of_peelNamed? {base type : CType}
    (h : peelNamed? source n base = some (m, type)) : (peel source n base).1 = some m := by
  rw [peelNamed?] at h
  split at h
  · next hpeel =>
    obtain ⟨rfl, -⟩ := Prod.mk.inj (Option.some.inj h)
    rw [hpeel]
  · contradiction

/-- A declarator's name is in it, in front of any initializer. -/
theorem Declarator.placeOf_of_mem_declarators {d : Declarator} (ht : t.isLaidOut = true)
    (ha : a.PlaceOf t) (hd : d ∈ declarators source a) :
    d.name.PlaceOf t ∧ d.name.stop ≤ d.bare.stop := by
  have hplace := placeOf_name ha hd
  exact ⟨hplace, (hplace.span_isWithin ht (placeOf_bare hd ha) (name_isWithin_bare hd)).2⟩

/-- The name that a declarator is peeled down to is in it. -/
theorem Declarator.placeOf_of_peelNamed? {base type : CType} (ht : t.isLaidOut = true)
    (hn : n.PlaceOf t) (h : peelNamed? source n base = some (m, type)) :
    m.PlaceOf t ∧ m.stop ≤ n.stop := by
  have hname := peel_fst_eq_of_peelNamed? h
  have hplace := placeOf_peel hn hname
  exact ⟨hplace, (hplace.span_isWithin ht hn (isWithin_of_peel hname)).2⟩

namespace Scoping

/-- The names that a construct declares, each with the offset from which on it is declared. -/
def namesOf (source : String) (a : Node) : List (Node × Nat) :=
  match a.kind with
  | .declaration | .typeDefinition =>
    (Declarator.declarators source a).map fun d => (d.name, d.bare.stop)
  | .functionDefinition | .parameterDeclaration =>
    (a.field? .declarator).toList.flatMap fun d =>
      ((Declarator.peelNamed? source d (Declarator.baseType source a)).map fun (name, _) =>
        (name, d.stop)).toList
  | .other "enumerator" => (a.field? .name).toList.map fun name => (name, a.stop)
  | _ => []

/-- **A name that is declared** in its scope, from some offset on. -/
structure Declared where
  name : Node
  start : Nat
  scope : Node

/-- **The names that a file declares.** -/
def declared (source : String) (root : Node) : List Declared :=
  (root.walk.flatMap (namesOf source)).filterMap fun (name, start) =>
    if name.tree.children.isEmpty then name.scope?.map (⟨name, start, ·⟩) else none

/-- A name is in its construct, in front of where it is declared. -/
theorem placeOf_of_mem_namesOf (ht : t.isLaidOut = true) (ha : a.PlaceOf t)
    (h : (m, start) ∈ namesOf source a) : m.PlaceOf t ∧ m.stop ≤ start := by
  have hdeclarators (h : (m, start) ∈ (Declarator.declarators source a).map
      fun d => (d.name, d.bare.stop)) : m.PlaceOf t ∧ m.stop ≤ start := by
    obtain ⟨d, hd, hname⟩ := List.mem_map.mp h
    obtain ⟨rfl, rfl⟩ := Prod.mk.inj hname
    exact Declarator.placeOf_of_mem_declarators ht ha hd
  have hdeclarator (h : (m, start) ∈ (a.field? .declarator).toList.flatMap fun d =>
      ((Declarator.peelNamed? source d (Declarator.baseType source a)).map fun (name, _) =>
        (name, d.stop)).toList) : m.PlaceOf t ∧ m.stop ≤ start := by
    obtain ⟨d, hd, h⟩ := List.mem_flatMap.mp h
    obtain ⟨⟨name, type⟩, hpeel, hname⟩ := Option.map_eq_some_iff.mp (Option.mem_toList.mp h)
    obtain ⟨rfl, rfl⟩ := Prod.mk.inj hname
    exact Declarator.placeOf_of_peelNamed? ht (ha.of_field? (Option.mem_toList.mp hd)) hpeel
  rw [namesOf] at h
  split at h
  · exact hdeclarators h
  · exact hdeclarators h
  · exact hdeclarator h
  · exact hdeclarator h
  · obtain ⟨name, hname, hpair⟩ := List.mem_map.mp h
    obtain ⟨rfl, rfl⟩ := Prod.mk.inj hpair
    have hfield := Option.mem_toList.mp hname
    have hplace := ha.of_field? hfield
    exact ⟨hplace, (hplace.span_isWithin ht ha
      (Node.isWithin_of_mem_children (List.mem_of_find?_eq_some hfield))).2⟩
  · exact absurd h List.not_mem_nil

/-- **What is known of a declared name.** -/
theorem declared_spec {e : Declared} (ht : t.isLaidOut = true)
    (he : e ∈ declared source (.root t)) : e.name.PlaceOf t ∧ e.name.stop ≤ e.start ∧
      e.name.tree.children = [] ∧ e.name.scope? = some e.scope := by
  obtain ⟨⟨name, start⟩, hmem, hentry⟩ := List.mem_filterMap.mp he
  obtain ⟨a, ha, hname⟩ := List.mem_flatMap.mp hmem
  obtain ⟨hplace, hstop⟩ :=
    placeOf_of_mem_namesOf ht ((Node.placeOf_root t).of_mem_walk ha) hname
  dsimp only at hentry
  split at hentry
  · next hleaf =>
    obtain ⟨scope, hscope, rfl⟩ := Option.map_eq_some_iff.mp hentry
    exact ⟨hplace, hstop, List.isEmpty_iff.mp hleaf, hscope⟩
  · contradiction

/-! ## Uses -/

/-- **The name is visible** from the place: it is spelled the same, declared before, and in a scope
around the place. -/
def Declared.IsVisible (source : String) (e : Declared) (n : Node) : Prop :=
  e.name.text source = n.text source ∧ e.start ≤ n.start ∧ n.isWithin e.scope = true

/-- **One declaration hides another**: its scope is further in, or it comes later in the same one. -/
def Declared.Hides (e f : Declared) : Prop :=
  f.scope.path.length < e.scope.path.length ∨
    f.scope.path.length = e.scope.path.length ∧ f.start ≤ e.start

/-- **A use of a name**: an identifier that is not declared there and that is no tag. -/
structure IsUse (source : String) (root n : Node) : Prop where
  kind : n.kind = .identifier ∨ n.kind = .typeIdentifier
  leaf : n.tree.children = []
  spelled : n.text source ≠ ""
  untagged : ∀ p ∈ n.parent?, p.kind ∉ [Kind.structSpecifier, .unionSpecifier, .enumSpecifier]
  undeclared : ∀ e ∈ declared source root, e.name.sameAs n = false

/-- **A use is bound to a declaration** that is visible from it and hides all others that are. -/
structure Binds (source : String) (root n : Node) (e : Declared) : Prop where
  use : IsUse source root n
  mem : e ∈ declared source root
  visible : e.IsVisible source n
  hides : ∀ f ∈ declared source root, f.IsVisible source n → e.Hides f

instance (e : Declared) (n : Node) : Decidable (e.IsVisible source n) :=
  inferInstanceAs (Decidable (_ ∧ _ ∧ _))

instance (e f : Declared) : Decidable (e.Hides f) := inferInstanceAs (Decidable (_ ∨ _ ∧ _))

/-- **A use is bound** to the declarations of one scope at one offset. -/
theorem Binds.unique {e f : Declared} (ht : t.isLaidOut = true)
    (he : Binds source (.root t) n e) (hf : Binds source (.root t) n f) :
    e.scope = f.scope ∧ e.start = f.start := by
  have hplace {e : Declared} (h : Binds source (.root t) n e) : e.scope.PlaceOf t := by
    obtain ⟨hname, -, -, hscope⟩ := declared_spec ht h.mem
    exact hname.of_scope? hscope
  have hef := he.hides f hf.mem hf.visible
  have hfe := hf.hides e he.mem he.visible
  have hlength : e.scope.path.length = f.scope.path.length := by
    rcases hef with hef | ⟨hef, -⟩ <;> rcases hfe with hfe | ⟨hfe, -⟩ <;> omega
  have hstart : e.start = f.start := by
    rcases hef with hef | ⟨-, hef⟩ <;> rcases hfe with hfe | ⟨-, hfe⟩ <;> omega
  have hwithin (e : Declared) (h : Binds source (.root t) n e) : e.scope.path <:+ n.path :=
    Node.isWithin_iff.mp h.visible.2.2
  have hpath := (List.suffix_of_suffix_length_le (hwithin e he) (hwithin f hf)
    hlength.le).eq_of_length hlength
  exact ⟨(hplace he).eq_of_path_eq (hplace hf) hpath, hstart⟩

end Scoping

end ProbeWeaver
