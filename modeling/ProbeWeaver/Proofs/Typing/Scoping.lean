import ProbeWeaver.Proofs.Passes.Shadows
import ProbeWeaver.Proofs.Run.Forwards
import ProbeWeaver.Proofs.Typing.OwnParameters
import ProbeWeaver.Proofs.Typing.Unwinding

/-!
# Proofs/Typing/Scoping — the scopes of C around a use

In C a name means what the innermost scope around its use declares before the use, the last
declarator of the name if there are several, and else what the file declares.  `Scoping.meaning?`
says so by the declarations that stand in each scope, not by a search.

* `Node.declarationsIn` — what stands in a block; case groups, labels and directives are no scopes.
* `Scoping.InPlainSight` — where a search that goes outward comes to these declarations.
-/

namespace ProbeWeaver

open Node (PlaceOf)
open NameTable (typesGiven)

variable {t : Tree} {source name : String} {u n a b p decl : Node} {d : Declarator}

/-! ## Where a declaration stands -/

namespace Node

/-- A construct that opens no scope: what is in a case group, behind a label or under a directive
stands in the construct around. -/
def opensNoScope (n : Node) : Bool :=
  n.kind == .caseStatement || n.kind == .labeledStatement || NameTable.isTransparent n.kind

/-- **The construct that a place stands in.** -/
def holder? (n : Node) : Option Node := n.ancestors.find? (!·.opensNoScope)

/-- **The declarations that stand in a construct**, in order. -/
def declarationsIn (n : Node) : List Node :=
  n.walk.filter fun d => d.kind == .declaration && d.holder?.any (·.sameAs n)

theorem mem_declarationsIn_iff (ha : a.PlaceOf t) : n ∈ a.declarationsIn ↔
    n.PlaceOf t ∧ n.kind = .declaration ∧ n.holder? = some a := by
  rw [declarationsIn, List.mem_filter, Bool.and_eq_true_iff, beq_iff_eq, Option.any_eq_true]
  constructor
  · rintro ⟨hwalk, hkind, holder, hholder, hsame⟩
    have hn := ha.of_mem_walk hwalk
    have hplace := hn.of_mem_ancestors (List.mem_of_find?_eq_some hholder)
    exact ⟨hn, hkind, hplace.eq_of_sameAs ha hsame ▸ hholder⟩
  · rintro ⟨hn, hkind, hholder⟩
    exact ⟨walk_subset_of_mem_ancestors hn (List.mem_of_find?_eq_some hholder) (mem_walk_self n),
      hkind, a, hholder, sameAs_self a⟩

/-- Declarations are no constructs without a scope. -/
theorem opensNoScope_of_kind (hkind : n.kind = .declaration) : n.opensNoScope = false := by
  rw [opensNoScope, hkind]
  rfl

/-- **Declarations that stand in one construct** are the same or apart. -/
theorem PlaceOf.eq_or_apart_of_holder (ht : t.isLaidOut = true) (ha : a.PlaceOf t)
    (hb : b.PlaceOf t) (hka : a.kind = .declaration) (hkb : b.kind = .declaration)
    (hpa : a.holder? = some p) (hpb : b.holder? = some p) :
    a = b ∨ a.stop ≤ b.start ∨ b.stop ≤ a.start := by
  -- a declaration holds what stands below it
  have hbelow {m n : Node} (hm : m.kind = .declaration) (hpm : m.holder? = some p)
      (hpn : n.holder? = some p) : m ∉ n.ancestors := fun h => by
    obtain ⟨inner, hinner⟩ := exists_ancestors_eq h
    have hdeeper := pairwise_ancestors n
    rw [hinner, List.pairwise_append] at hdeeper
    have hp := length_path_of_mem_ancestors (List.mem_of_find?_eq_some hpm)
    rw [holder?, hinner, List.find?_append, List.find?_cons_of_pos
      (by rw [opensNoScope_of_kind hm]; rfl)] at hpn
    cases hfind : inner.find? (!·.opensNoScope) with
    | none =>
      rw [hfind, Option.none_or] at hpn
      rw [Option.some.inj hpn] at hp
      exact Nat.lt_irrefl _ hp
    | some q =>
      rw [hfind, Option.some_or] at hpn
      obtain rfl := Option.some.inj hpn
      have hq := hdeeper.2.2 q (List.mem_of_find?_eq_some hfind) m List.mem_cons_self
      exact Nat.lt_asymm hp hq
  rcases PlaceOf.within_or_apart ht hb ha with h | h | h
  · exact .inl (((hb.isWithin_iff_mem ha).mp h).resolve_right (hbelow hka hpa hpb))
  · exact .inl (((ha.isWithin_iff_mem hb).mp h).resolve_right (hbelow hkb hpb hpa)).symm
  · exact .inr h

end Node

/-! ## What a name means -/

namespace Scoping

/-- **Where a declarator ends**: in front of its initializer, as scopes of C have it, or behind. -/
inductive Extent where
  | bare | whole
  deriving DecidableEq

/-- The end of a declarator. -/
def Extent.stop : Extent → Declarator → Nat
  | .bare, d => d.bare.stop
  | .whole, d => d.node.stop

section Meaning

variable (extent : Extent) (source name : String) (place : Node)

/-- **The types that a declaration gives the name** before the place, in order. -/
def typesBefore (decl : Node) : List CType :=
  ((Declarator.declarators source decl).filter fun d =>
    d.name.text source == name && decide (extent.stop d ≤ place.start)).map (·.type)

/-- The types that a block gives the name before the place. -/
def blockTypes (block : Node) : List CType :=
  block.declarationsIn.flatMap (typesBefore extent source name place)

/-- The types that the header of a loop gives the name before the place. -/
def headerTypes (loop : Node) : List CType :=
  ((loop.field? .initializer).toList.filter (·.kind == .declaration)).flatMap
    (typesBefore extent source name place)

/-- The decayed type of a parameter of the name before the place. -/
def parameterBefore? (p : Node) : Option CType := do
  let d ← p.field? .declarator
  let (declared, type) ← Declarator.peelNamed? source d (Declarator.baseType source p)
  if declared.text source = name ∧ d.stop ≤ place.start then some type.decayed else none

/-- The types that a list of parameters gives the name. -/
def listTypes (list : Node) : List CType :=
  (Declarator.parameters list).filterMap (parameterBefore? source name place)

/-- The types that the parameters of a function give the name. -/
def parameterTypes (definition : Node) : List CType :=
  ((definition.field? .declarator).bind Declarator.ownParameters?).toList.flatMap
    (listTypes source name place)

/-- **What one scope makes of the name.** -/
def scopeMeaning? (scope : Node) : Option NameMeaning :=
  match scope.kind with
  | .compoundStatement =>
    (blockTypes extent source name place scope).getLast?.map (⟨.blockVariable, ·⟩)
  | .forStatement =>
    (headerTypes extent source name place scope).getLast?.map (⟨.blockVariable, ·⟩)
  | .functionDefinition =>
    (parameterTypes source name place scope).getLast?.map (⟨.parameter, ·⟩)
  | _ => none

/-- The names and types that the file scope declares, with the declaration of each, in order. -/
def fileEntries (root : Node) : List (Node × String × CType) :=
  (NameTable.fileScope root).flatMap fun n =>
    (NameTable.declaredAtFileScope source n).map fun entry => (n, entry)

/-- The type that the file scope gives the name last, among its functions or among its variables. -/
def fileType? (root : Node) (functions : Bool) : Option CType :=
  ((fileEntries source root).filter fun (n, entry) =>
    NameTable.isFunctionEntry n entry == functions && entry.1 == name).getLast?.map (·.2.2)

/-- **What the file scope makes of the name**: a variable, else a function, else a constant of an
enumeration anywhere in the file. -/
def fileMeaning? (root : Node) : Option NameMeaning :=
  match fileType? source name root false with
  | some type => some ⟨.fileVariable, type⟩
  | none =>
    match fileType? source name root true with
    | some type => some ⟨.function, type⟩
    | none =>
      if (root.postorder.flatMap (NameTable.enumeratorsOf source)).contains name then
        some ⟨.enumConstant, .int⟩
      else none

/-- **What a name means at a place**: the innermost scope around it says so, else the file. -/
def meaning? (root : Node) : Option NameMeaning :=
  match place.ancestors.findSome? (scopeMeaning? extent source name place) with
  | some meaning => some meaning
  | none => fileMeaning? source name root

end Meaning

end Scoping

/-! ## Declarators before a place -/

variable {extent : Scoping.Extent}

namespace Declarator

theorem bare_isWithin_node (d : Declarator) : d.bare.isWithin d.node = true := by
  rw [bare]
  split
  · cases hfield : d.node.field? .declarator with
    | none => exact Node.isWithin_self d.node
    | some inner => exact Node.isWithin_of_mem_children (List.mem_of_find?_eq_some hfield)
  · exact Node.isWithin_self d.node

/-- The declarator, with or without its initializer, lies in the declaration and holds the name. -/
theorem exists_extent (extent : Scoping.Extent) (hdecl : decl.PlaceOf t)
    (hd : d ∈ declarators source decl) : ∃ n : Node, n.PlaceOf t ∧ extent.stop d = n.stop ∧
      d.name.isWithin n = true ∧ n.isWithin decl = true := by
  have hfills := (exists_peel_of_mem_declarators hd).1
  have hnode : d.node.isWithin decl = true :=
    Node.isWithin_of_mem_children (List.mem_filter.mp hfills).1
  have hbare := bare_isWithin_node d
  cases extent with
  | bare => exact ⟨d.bare, placeOf_bare hd hdecl, rfl, name_isWithin_bare hd,
      Node.isWithin_trans hbare hnode⟩
  | whole => exact ⟨d.node, hdecl.of_mem_fillers hfills, rfl,
      Node.isWithin_trans (name_isWithin_bare hd) hbare, hnode⟩

theorem stop_le_stop (extent : Scoping.Extent) (ht : t.isLaidOut = true) (hdecl : decl.PlaceOf t)
    (hd : d ∈ declarators source decl) : extent.stop d ≤ decl.stop := by
  obtain ⟨n, hn, hstop, -, hwithin⟩ := exists_extent extent hdecl hd
  rw [hstop]
  exact (hn.span_isWithin ht hdecl hwithin).2

/-- A declarator of a name ends behind the start of the declaration. -/
theorem start_lt_stop (extent : Scoping.Extent) (ht : t.isLaidOut = true) (hdecl : decl.PlaceOf t)
    (hd : d ∈ declarators source decl) (hname : d.name.text source ≠ "") :
    decl.start < extent.stop d := by
  obtain ⟨n, hn, hstop, hwithin, hup⟩ := exists_extent extent hdecl hd
  have hplace := placeOf_name hdecl hd
  have hlt := hplace.start_lt_stop ht hname
  obtain ⟨-, hend⟩ := hplace.span_isWithin ht hn hwithin
  obtain ⟨hbegin, -⟩ := hplace.span_isWithin ht hdecl (Node.isWithin_trans hwithin hup)
  omega

end Declarator

namespace Scoping

/-- **A declaration of the name before the place** starts before it and is not empty. -/
theorem start_lt_of_typesBefore (ht : t.isLaidOut = true) (hdecl : decl.PlaceOf t)
    (hname : name ≠ "") (h : typesBefore extent source name u decl ≠ []) :
    decl.start < decl.stop ∧ decl.start < u.start := by
  obtain ⟨type, htype⟩ := List.exists_mem_of_ne_nil _ h
  obtain ⟨d, hd, -⟩ := List.mem_map.mp htype
  obtain ⟨hd, htest⟩ := List.mem_filter.mp hd
  obtain ⟨htext, hend⟩ := Bool.and_eq_true_iff.mp htest
  have hlt := Declarator.start_lt_stop extent ht hdecl hd (beq_iff_eq.mp htext ▸ hname)
  have hle := Declarator.stop_le_stop extent ht hdecl hd
  have hend := of_decide_eq_true hend
  omega

/-- A declaration that is over before the place gives the name all its types before the place. -/
theorem typesBefore_eq (ht : t.isLaidOut = true) (hdecl : decl.PlaceOf t)
    (hstop : decl.stop ≤ u.start) :
    typesBefore extent source name u decl = typesGiven source name decl := by
  rw [typesBefore, typesGiven]
  refine congrArg (List.map _) (List.filter_congr fun d hd => ?_)
  have hle := Declarator.stop_le_stop extent ht hdecl hd
  rw [decide_eq_true (Nat.le_trans hle hstop), Bool.and_true]

end Scoping

/-! ## Plain sight -/

namespace Scoping

/-- **The place is in the bodies** of the functions around it, and behind the headers of the loops
around it or in them. -/
structure InBody (u : Node) : Prop where
  functions : ∀ f ∈ u.ancestors, f.kind = .functionDefinition →
    ∀ d ∈ f.field? .declarator, d.stop ≤ u.start
  loops : ∀ loop ∈ u.ancestors, loop.kind = .forStatement →
    ∀ init ∈ loop.field? .initializer, u.isWithin init = true ∨ init.stop ≤ u.start

/-- **The scope is reached** from the place: none further in makes anything of the name. -/
def Reached (extent : Extent) (source name : String) (u scope : Node) : Prop :=
  ∀ inner ∈ u.ancestors, scope.path.length < inner.path.length →
    scopeMeaning? extent source name u inner = none

/-- **A scope or a case group shows its declarations of the name.**  Before the place the name is
declared
* in a block only by declarations that do not hold the place and stand right in the block or in a
  case group around the place;
* in a case group only if the group stands in a block;
* in the header of a loop at most once, and not if the header holds the place;
* by the parameters of a function at most once, and with the function's own list the first one next
  to a name or to parentheses, unless no list of the declarator declares the name. -/
def Shows (extent : Extent) (source name : String) (u scope : Node) : Prop :=
  match scope.kind with
  | .compoundStatement =>
    ∀ decl ∈ scope.declarationsIn, typesBefore extent source name u decl ≠ [] →
      u.isWithin decl = false ∧ ∃ p ∈ decl.parent?, u.isWithin p = true ∧
        (p.kind = .compoundStatement ∨ p.kind = .caseStatement)
  | .caseStatement =>
    ∀ decl ∈ scope.children, decl.kind = .declaration →
      typesBefore extent source name u decl ≠ [] →
        ∃ block ∈ decl.holder?, block.kind = .compoundStatement
  | .forStatement =>
    (headerTypes extent source name u scope).length ≤ 1 ∧
      ∀ init ∈ scope.field? .initializer, u.isWithin init = true →
        headerTypes extent source name u scope = []
  | .functionDefinition =>
    (parameterTypes source name u scope).length ≤ 1 ∧
      ∀ d ∈ scope.field? .declarator, Declarator.IsPlain d ∧
        ((∀ l ∈ Declarator.levels d, Declarator.isTaken l = true → Declarator.isOwn l = true) ∨
          ∀ l ∈ Declarator.levels d, ∀ list ∈ l.field? .parameters,
            listTypes source name u list = [])
  | _ => True

/-- **The declarations of the name are in plain sight** from the place: whatever is reached shows
them. -/
def InPlainSight (extent : Extent) (source name : String) (u : Node) : Prop :=
  ∀ scope ∈ u.ancestors, Reached extent source name u scope → Shows extent source name u scope

instance : Decidable (Reached extent source name u n) :=
  inferInstanceAs (Decidable (∀ inner ∈ u.ancestors, _))

instance : Decidable (Shows extent source name u n) := by
  unfold Shows
  split <;> infer_instance

instance : Decidable (InPlainSight extent source name u) :=
  inferInstanceAs (Decidable (∀ scope ∈ u.ancestors, _))

instance : Decidable (InBody u) :=
  decidable_of_iff ((∀ f ∈ u.ancestors, f.kind = .functionDefinition →
    ∀ d ∈ f.field? .declarator, d.stop ≤ u.start) ∧
      ∀ loop ∈ u.ancestors, loop.kind = .forStatement →
        ∀ init ∈ loop.field? .initializer, u.isWithin init = true ∨ init.stop ≤ u.start)
    ⟨fun ⟨hfunctions, hloops⟩ => ⟨hfunctions, hloops⟩,
      fun ⟨hfunctions, hloops⟩ => ⟨hfunctions, hloops⟩⟩

end Scoping

end ProbeWeaver
