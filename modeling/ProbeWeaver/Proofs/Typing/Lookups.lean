import ProbeWeaver.Proofs.Typing.Scoping

/-!
# Proofs/Typing/Lookups — looking a name up follows the scopes of C

The search goes outward and asks each construct around a use for declarations before the place it
came through.  It finds what C says where the declarations of the name are in plain sight
(`InPlainSight`): right in a block or in a case group around the use, each finished before the use.
-/

namespace ProbeWeaver

open Node (PlaceOf)
open NameTable (blockBinding? headerBinding? scopeBinding? localBinding? typesGiven)
open Relocation (declarationsBefore)

variable {t : Tree} {source name : String} {extent : Scoping.Extent}
  {u n a b p decl block below : Node} {d : Declarator}

/-! ## Last items -/

/-- The last image of a list comes from the last item that has one. -/
theorem getLast?_flatMap {α β : Type} (l : List α) (f : α → List β) :
    (l.flatMap f).getLast? =
      (l.filter fun a => !(f a).isEmpty).getLast?.bind fun a => (f a).getLast? := by
  induction l using List.reverseRecOn with
  | nil => rfl
  | append_singleton l a ih =>
    rw [List.flatMap_append, List.filter_append, List.flatMap_singleton]
    cases hfa : f a with
    | nil => simp [hfa, ih]
    | cons b bs => simp [hfa, List.getLast?_append, List.getLast?_cons]

/-! ## The search in one construct -/

namespace Scoping

theorem nodup_declarationsBefore (block : Node) (stop : Nat) :
    (declarationsBefore block stop).Nodup := by
  have hchildren : block.children.Nodup := block.pairwise_children.imp fun {a b} hne heq => by
    rw [heq, Node.sameAs_self] at hne
    contradiction
  exact ((hchildren.filter _).sublist (List.takeWhile_sublist _)).filter _

/-- Declarations of the name that stand in one construct start one behind the other. -/
theorem pairwise_start_lt {l : List Node} (ht : t.isLaidOut = true) (hname : name ≠ "")
    (hle : l.Pairwise fun a b => a.start ≤ b.start) (hnodup : l.Nodup)
    (hl : ∀ decl ∈ l, decl.PlaceOf t ∧ decl.kind = .declaration ∧ decl.holder? = some block) :
    (l.filter fun decl => !(typesBefore extent source name u decl).isEmpty).Pairwise
      fun a b => a.start < b.start := by
  refine ((hle.and hnodup).filter _).imp_of_mem fun {a b} ha hb ⟨hle, hne⟩ => ?_
  obtain ⟨ha, hseen⟩ := List.mem_filter.mp ha
  obtain ⟨hb, hseen'⟩ := List.mem_filter.mp hb
  rw [Bool.not_eq_true', List.isEmpty_eq_false_iff] at hseen hseen'
  obtain ⟨hpa, hka, hha⟩ := hl a ha
  obtain ⟨hpb, hkb, hhb⟩ := hl b hb
  have hlt := start_lt_of_typesBefore ht hpa hname hseen
  have hlt' := start_lt_of_typesBefore ht hpb hname hseen'
  rcases hpa.eq_or_apart_of_holder ht hpb hka hkb hha hhb with heq | h | h
  · exact absurd heq hne
  · omega
  · omega

section Search

variable (ht : t.isLaidOut = true) (hu : u.PlaceOf t) (hname : name ≠ "")
  (hbelow : below.PlaceOf t) (hwithin : u.isWithin below = true) (hparent : below.parent? = some p)
include ht hu hname hbelow hwithin hparent

/-- **A declaration of the name beside a construct around the place** is over before it. -/
theorem stop_le_start_of_beside (hdecl : decl.PlaceOf t) (hbeside : decl.parent? = some p)
    (hseen : typesBefore extent source name u decl ≠ []) (hout : u.isWithin decl = false) :
    decl.stop ≤ below.start := by
  rcases hdecl.eq_or_apart ht hbelow hbeside hparent with rfl | h | h
  · rw [hwithin] at hout
    contradiction
  · exact h
  · have hstop := (hu.span_isWithin ht hbelow hwithin).2
    have hstart := (start_lt_of_typesBefore ht hdecl hname hseen).2
    have hle := hu.start_le_stop ht
    omega

/-- Declarations of the name beside the construct are among those that the search comes to. -/
theorem mem_declarationsBefore (hdecl : decl.PlaceOf t) (hkind : decl.kind = .declaration)
    (hbeside : decl.parent? = some p) (hseen : typesBefore extent source name u decl ≠ [])
    (hout : u.isWithin decl = false) : decl ∈ declarationsBefore p below.start := by
  refine (Relocation.mem_declarationsBefore_iff ht (hbelow.of_parent? hparent)).mpr
    ⟨hdecl.mem_children hbeside, hkind, ?_⟩
  have hstop := stop_le_start_of_beside ht hu hname hbelow hwithin hparent hdecl hbeside hseen hout
  have hlt := start_lt_of_typesBefore ht hdecl hname hseen
  omega

omit hname in
variable (extent) in
/-- **The search in a block or a case group** finds the last type that the declarations before the
construct give the name before the place. -/
theorem blockBinding?_eq : blockBinding? source name p below =
    ((declarationsBefore p below.start).flatMap
      (typesBefore extent source name u)).getLast? := by
  refine congrArg List.getLast? (List.flatMap_congr fun decl hdecl => ?_)
  have hp := hbelow.of_parent? hparent
  obtain ⟨hchild, -, hlt⟩ := (Relocation.mem_declarationsBefore_iff ht hp).mp hdecl
  have hplace := hp.of_mem_children hchild
  have hstart := (hu.span_isWithin ht hbelow hwithin).1
  refine (typesBefore_eq ht hplace ?_).symm
  rcases hplace.eq_or_apart ht hbelow (Node.parent?_of_mem_children hchild) hparent with
    rfl | h | h
  · exact absurd hlt (Nat.lt_irrefl _)
  · omega
  · have := hbelow.start_le_stop ht
    omega

/-- Where the search finds nothing, no declaration beside the construct is of the name. -/
theorem typesBefore_eq_nil (hdecl : decl.PlaceOf t) (hkind : decl.kind = .declaration)
    (hbeside : decl.parent? = some p) (hout : u.isWithin decl = false)
    (hnone : blockBinding? source name p below = none) :
    typesBefore extent source name u decl = [] := by
  rw [blockBinding?_eq extent ht hu hbelow hwithin hparent, List.getLast?_eq_none_iff,
    List.flatMap_eq_nil_iff] at hnone
  by_contra hseen
  exact hseen (hnone decl (mem_declarationsBefore ht hu hname hbelow hwithin hparent hdecl hkind
    hbeside hseen hout))

omit hname in
variable (extent) in
/-- Where the search finds a type, a declaration beside the construct is of the name. -/
theorem exists_of_blockBinding? {type : CType}
    (hfound : blockBinding? source name p below = some type) :
    ∃ decl ∈ p.children, decl.kind = .declaration ∧
      typesBefore extent source name u decl ≠ [] := by
  rw [blockBinding?_eq extent ht hu hbelow hwithin hparent] at hfound
  obtain ⟨decl, hdecl, htype⟩ := List.mem_flatMap.mp (List.mem_of_getLast? hfound)
  obtain ⟨hchild, hkind, -⟩ :=
    (Relocation.mem_declarationsBefore_iff ht (hbelow.of_parent? hparent)).mp hdecl
  exact ⟨decl, hchild, hkind, List.ne_nil_of_mem htype⟩

/-- **A declaration of the name that is found** is the last one in its block, if the others stand in
constructs around. -/
theorem getLast?_blockTypes (hblock : block.PlaceOf t) {type : CType}
    (hholder : ∀ decl ∈ p.children, decl.kind = .declaration → decl.holder? = some block)
    (haround : ∀ decl ∈ block.declarationsIn, typesBefore extent source name u decl ≠ [] →
      u.isWithin decl = false ∧ ∃ q ∈ below.ancestors, decl.parent? = some q)
    (hfound : blockBinding? source name p below = some type) :
    (blockTypes extent source name u block).getLast? = some type := by
  have hp := hbelow.of_parent? hparent
  rw [blockBinding?_eq extent ht hu hbelow hwithin hparent, getLast?_flatMap] at hfound
  obtain ⟨decl, hlast, htype⟩ := Option.bind_eq_some_iff.mp hfound
  rw [blockTypes, getLast?_flatMap]
  refine Option.bind_eq_some_iff.mpr ⟨decl, ?_, htype⟩
  have hchildren : ∀ decl ∈ declarationsBefore p below.start,
      decl.PlaceOf t ∧ decl.kind = .declaration ∧ decl.holder? = some block := fun decl hdecl => by
    obtain ⟨hchild, hkind, -⟩ := (Relocation.mem_declarationsBefore_iff ht hp).mp hdecl
    exact ⟨hp.of_mem_children hchild, hkind, hholder decl hchild hkind⟩
  have hasymm : ∀ a b : Node, a.start < b.start → ¬ b.start < a.start := fun _ _ => Nat.lt_asymm
  have hbefore : ((declarationsBefore p below.start).filter fun decl =>
      !(typesBefore extent source name u decl).isEmpty).Pairwise fun a b => a.start < b.start :=
    pairwise_start_lt ht hname
      ((((hp.pairwise_start ht).filter _).sublist (List.takeWhile_sublist _)).filter _)
      (nodup_declarationsBefore p below.start) hchildren
  have hin : (block.declarationsIn.filter fun decl =>
      !(typesBefore extent source name u decl).isEmpty).Pairwise fun a b => a.start < b.start :=
    pairwise_start_lt ht hname ((hblock.pairwise_start_walk ht).filter _)
      (block.nodup_walk.filter _) fun decl hdecl => (Node.mem_declarationsIn_iff hblock).mp hdecl
  obtain ⟨hmem, hmax⟩ := (getLast?_eq_some_iff_of_pairwise hasymm hbefore).mp hlast
  refine (getLast?_eq_some_iff_of_pairwise hasymm hin).mpr ?_
  obtain ⟨hdecl, hseen⟩ := List.mem_filter.mp hmem
  refine ⟨List.mem_filter.mpr ⟨(Node.mem_declarationsIn_iff hblock).mpr (hchildren decl hdecl),
    hseen⟩, fun other hother hlt => ?_⟩
  obtain ⟨hin, hseen'⟩ := List.mem_filter.mp hother
  have hne := hseen'
  rw [Bool.not_eq_true', List.isEmpty_eq_false_iff] at hne
  obtain ⟨hplace, hkind, -⟩ := (Node.mem_declarationsIn_iff hblock).mp hin
  obtain ⟨hout, q, hq, hqparent⟩ := haround other hin hne
  rw [Node.ancestors_of_parent? hparent] at hq
  rcases List.mem_cons.mp hq with rfl | hq
  · -- beside the construct: among those that the search comes to
    exact hmax other (List.mem_filter.mpr ⟨mem_declarationsBefore ht hu hname hbelow hwithin
      hparent hplace hkind hqparent hne hout, hseen'⟩) hlt
  · -- further out: over before what encloses the one that is found
    obtain ⟨b, hb, hbparent⟩ := Node.exists_child_of_mem_ancestors hq
    have hbplace : b.PlaceOf t := hb.elim (fun h => h ▸ hp) hp.of_mem_ancestors
    have hpb := (hp.isWithin_iff_mem hbplace).mpr hb
    have hbelowp : below.isWithin p = true := Node.isWithin_of_mem_ancestors
      (Node.ancestors_of_parent? hparent ▸ List.mem_cons_self)
    have hub := Node.isWithin_trans (Node.isWithin_trans hwithin hbelowp) hpb
    have hstop := stop_le_start_of_beside ht hu hname hbplace hub hbparent hplace hqparent hne hout
    have hpstart := (hp.span_isWithin ht hbplace hpb).1
    obtain ⟨hchild, -⟩ := (Relocation.mem_declarationsBefore_iff ht hp).mp hdecl
    have hstart := ((hp.of_mem_children hchild).span_isWithin ht hp
      (Node.isWithin_of_mem_children hchild)).1
    have hlong := (start_lt_of_typesBefore ht hplace hname hne).1
    omega

end Search

end Scoping

/-! ## The search among parameters -/

namespace Declarator

/-- The search among parameters that are over before the place. -/
theorem findSome?_parameters {list : Node} (hstop : ∀ p ∈ parameters list,
    ∀ d ∈ p.field? .declarator, d.stop ≤ u.start) :
    (list.namedChildren.findSome? fun p =>
      if p.kind = .parameterDeclaration then
        match peelOptional source (p.field? .declarator) (baseType source p) with
        | (some n, type) => if n.text source = name then some type.decayed else none
        | (none, _) => none
      else none) = (Scoping.listTypes source name u list).head? := by
  rw [← List.head?_filterMap, Scoping.listTypes, parameters, List.filterMap_filter]
  refine congrArg List.head? (List.filterMap_congr fun p hp => ?_)
  by_cases hkind : p.kind = .parameterDeclaration
  · have hstop := hstop p (List.mem_filter.mpr ⟨hp, beq_iff_eq.mpr hkind⟩)
    rw [if_pos hkind, if_pos (beq_iff_eq.mpr hkind), Scoping.parameterBefore?]
    cases hd : p.field? .declarator with
    | none => rfl
    | some d =>
      rw [Option.bind_eq_bind, Option.bind_some, peelOptional, peelNamed?]
      rcases peel source d (baseType source p) with ⟨_ | n, type⟩
      · rfl
      · simp [hstop d hd]
  · rw [if_neg hkind, if_neg (fun h => hkind (beq_iff_eq.mp h))]

/-- **The search for a parameter** finds the first type that the list it takes gives the name. -/
theorem typeOfParameter?_eq (ht : t.isLaidOut = true) {d : Node} (hplace : d.PlaceOf t)
    (hd : f.field? .declarator = some d) (hplain : IsPlain d) (hstop : d.stop ≤ u.start) :
    typeOfParameter? source f name =
      ((parameterList? d).toList.flatMap (Scoping.listTypes source name u)).head? := by
  rw [typeOfParameter?, hd, Option.bind_eq_bind, Option.bind_some]
  cases hlist : parameterList? d with
  | none => rfl
  | some list =>
    rw [Option.bind_some, Option.toList_some, List.flatMap_singleton]
    refine findSome?_parameters fun p hp inner hinner => Nat.le_trans ?_ hstop
    rw [parameterList?_eq hplain] at hlist
    obtain ⟨l, hl, hfield⟩ := Option.bind_eq_some_iff.mp hlist
    obtain ⟨hlevel, hwithin⟩ := within_of_mem_levels hplace (List.mem_of_find?_eq_some hl)
    have hlistChild := List.mem_of_find?_eq_some hfield
    have hpChild := (List.mem_filter.mp (List.mem_filter.mp hp).1).1
    have hinnerChild := List.mem_of_find?_eq_some hinner
    have hup := Node.isWithin_trans (Node.isWithin_of_mem_children hinnerChild)
      (Node.isWithin_trans (Node.isWithin_of_mem_children hpChild)
        (Node.isWithin_trans (Node.isWithin_of_mem_children hlistChild) hwithin))
    have hpPlace := (hlevel.of_mem_children hlistChild).of_mem_children hpChild
    exact ((hpPlace.of_mem_children hinnerChild).span_isWithin ht hplace hup).2

end Declarator

/-! ## The search outward -/

/-- Looking up in a table whose later entries come first finds the last one of the name. -/
theorem lookup_map_reverse {α β : Type} (l : List α) (f : α → String × β) (x : String) :
    (l.reverse.map f).lookup x =
      ((l.filter fun a => (f a).1 == x).getLast?).map fun a => (f a).2 := by
  induction l using List.reverseRecOn with
  | nil => rfl
  | append_singleton l a ih =>
    rw [List.reverse_append, List.reverse_singleton, List.singleton_append, List.map_cons,
      List.filter_append]
    cases hname : (f a).1 == x with
    | true =>
      rw [List.lookup_cons, BEq.comm, hname]
      simp [hname]
    | false =>
      rw [List.lookup_cons, BEq.comm, hname]
      simpa [hname] using ih

namespace Scoping

/-- **What a file declares** is what its table of names says. -/
theorem fileBinding?_build (root : Node) :
    (NameTable.build source root).fileBinding? name = fileMeaning? source name root := by
  have htable (functions : Bool) : ((((fileEntries source root).filter fun p =>
      NameTable.isFunctionEntry p.1 p.2 == functions).reverse).map (·.2)).lookup name =
        fileType? source name root functions := by
    rw [lookup_map_reverse, List.filter_filter, fileType?]
    simp only [Bool.and_comm]
  have hvariable : (NameTable.build source root).global? name =
      fileType? source name root false := by
    rw [← htable]
    simp only [NameTable.global?, NameTable.build, fileEntries, beq_false]
  have hfunction : (NameTable.build source root).function? name =
      fileType? source name root true := by
    rw [← htable]
    simp only [NameTable.function?, NameTable.build, fileEntries, beq_true]
  rw [NameTable.fileBinding?, fileMeaning?, hvariable, hfunction]
  rfl

/-- What opens no scope makes nothing of a name. -/
theorem scopeMeaning?_of_opensNoScope (h : n.opensNoScope = true) :
    scopeMeaning? extent source name u n = none := by
  rw [scopeMeaning?]
  split
  case h_4 => rfl
  all_goals
    rw [Node.opensNoScope, ‹n.kind = _›] at h
    exact absurd h (by decide)

section InPlainSight

variable (h : InPlainSight extent source name u) (hn : n ∈ u.ancestors)
include h hn

theorem InPlainSight.of_block (hkind : n.kind = .compoundStatement)
    (hreached : Reached extent source name u n) : ∀ decl ∈ n.declarationsIn,
      typesBefore extent source name u decl ≠ [] →
        u.isWithin decl = false ∧ ∃ p ∈ decl.parent?, u.isWithin p = true ∧
          (p.kind = .compoundStatement ∨ p.kind = .caseStatement) := by
  have hshows := h n hn hreached
  rwa [Shows, hkind] at hshows

theorem InPlainSight.of_group (hkind : n.kind = .caseStatement)
    (hreached : Reached extent source name u n) : ∀ decl ∈ n.children,
      decl.kind = .declaration → typesBefore extent source name u decl ≠ [] →
        ∃ block ∈ decl.holder?, block.kind = .compoundStatement := by
  have hshows := h n hn hreached
  rwa [Shows, hkind] at hshows

theorem InPlainSight.of_loop (hkind : n.kind = .forStatement)
    (hreached : Reached extent source name u n) :
    (headerTypes extent source name u n).length ≤ 1 ∧
      ∀ init ∈ n.field? .initializer, u.isWithin init = true →
        headerTypes extent source name u n = [] := by
  have hshows := h n hn hreached
  rwa [Shows, hkind] at hshows

theorem InPlainSight.of_function (hkind : n.kind = .functionDefinition)
    (hreached : Reached extent source name u n) :
    (parameterTypes source name u n).length ≤ 1 ∧
      ∀ d ∈ n.field? .declarator, Declarator.IsPlain d ∧
        ((∀ l ∈ Declarator.levels d, Declarator.isTaken l = true → Declarator.isOwn l = true) ∨
          ∀ l ∈ Declarator.levels d, ∀ list ∈ l.field? .parameters,
            listTypes source name u list = []) := by
  have hshows := h n hn hreached
  rwa [Shows, hkind] at hshows

end InPlainSight

/-- A scope that makes nothing of the name is passed. -/
theorem Reached.of_le (h : Reached extent source name u p) (hp : p ∈ u.ancestors)
    (hnone : scopeMeaning? extent source name u p = none) : ∀ inner ∈ u.ancestors,
      p.path.length ≤ inner.path.length → scopeMeaning? extent source name u inner = none := by
  intro inner hinner hle
  rcases Nat.lt_or_eq_of_le hle with hlt | heq
  · exact h inner hinner hlt
  · rwa [Node.eq_of_mem_ancestors hinner hp heq.symm]

/-- Past constructs that make nothing of the name the next one is reached. -/
theorem Reached.of_ancestors_eq {inner outer : List Node} (h : Reached extent source name u p)
    (hp : p ∈ u.ancestors) (hsplit : p.ancestors = inner ++ block :: outer)
    (hnone : ∀ scope ∈ p :: inner, scopeMeaning? extent source name u scope = none) :
    Reached extent source name u block := by
  intro scope hscope hlt
  obtain ⟨front, hfront⟩ := Node.exists_ancestors_eq hp
  have hdeeper := Node.pairwise_ancestors u
  rw [hfront] at hscope hdeeper
  rw [hsplit, ← List.cons_append] at hscope hdeeper
  have hlast := (List.pairwise_append.mp (List.pairwise_append.mp hdeeper).2.1).2.1
  rcases List.mem_append.mp hscope with hscope | hscope
  · refine h scope ?_ ((List.pairwise_append.mp hdeeper).2.2 scope hscope p List.mem_cons_self)
    rw [hfront]
    exact List.mem_append_left _ hscope
  · rcases List.mem_append.mp hscope with hscope | hscope
    · exact hnone scope hscope
    · rcases List.mem_cons.mp hscope with rfl | hscope
      · exact absurd hlt (Nat.lt_irrefl _)
      · exact absurd ((List.pairwise_cons.mp hlast).1 scope hscope) (Nat.lt_asymm hlt)

/-- **Settled up to a construct around the place**: the declarations of the name that further blocks
hold stand right in constructs further out. -/
def Settled (extent : Extent) (source name : String) (u below : Node) : Prop :=
  ∀ block ∈ below.ancestors, block.kind = .compoundStatement →
    Reached extent source name u block → ∀ decl ∈ block.declarationsIn,
      typesBefore extent source name u decl ≠ [] →
        u.isWithin decl = false ∧ ∃ q ∈ below.ancestors, decl.parent? = some q

/-- The search goes on settled if no declaration of the name is left in the construct. -/
theorem Settled.of_child {p : Node} {i : Nat} {v : Tree}
    (h : Settled extent source name u (.child p i v))
    (hnone : ∀ block ∈ p.ancestors, block.kind = .compoundStatement →
      Reached extent source name u block → ∀ decl ∈ block.declarationsIn,
        typesBefore extent source name u decl ≠ [] → u.isWithin decl = false →
          decl.parent? ≠ some p) : Settled extent source name u p := by
  intro block hblock hkind hreached decl hdecl hseen
  obtain ⟨hout, q, hq, hparent⟩ :=
    h block (List.mem_cons_of_mem p hblock) hkind hreached decl hdecl hseen
  refine ⟨hout, q, ?_, hparent⟩
  rcases List.mem_cons.mp hq with rfl | hq
  · exact absurd hparent (hnone block hblock hkind hreached decl hdecl hseen hout)
  · exact hq

section Outward

variable (ht : t.isLaidOut = true) (hu : u.PlaceOf t) (hname : name ≠ "")
  (hsight : InPlainSight extent source name u) (hbody : InBody u)
include ht hu hname hsight

theorem settled_self : Settled extent source name u u := by
  intro block hblock hkind hreached decl hdecl hseen
  obtain ⟨hout, p, hparent, hwithin, -⟩ :=
    hsight.of_block hblock hkind hreached decl hdecl hseen
  obtain ⟨hplace, -⟩ := (Node.mem_declarationsIn_iff (hu.of_mem_ancestors hblock)).mp hdecl
  have hp := hplace.of_parent? hparent
  refine ⟨hout, p, ?_, hparent⟩
  rcases (hu.isWithin_iff_mem hp).mp hwithin with rfl | hmem
  · -- a declaration of the name starts before the place, and so not in it
    have hlt := (start_lt_of_typesBefore ht hplace hname hseen).2
    have hle := (hplace.span_isWithin ht hp (Node.isWithin_of_mem_ancestors
      (by rw [Node.ancestors_of_parent? hparent]; exact List.mem_cons_self))).1
    omega
  · exact hmem

omit hsight in
/-- **The search in a block** finds what the block makes of the name. -/
theorem blockBinding?_eq_getLast? (hp : p.kind = .compoundStatement) (hbelow : below.PlaceOf t)
    (hwithin : u.isWithin below = true) (hparent : below.parent? = some p)
    (hreached : Reached extent source name u p) (hsettled : Settled extent source name u below) :
    blockBinding? source name p below = (blockTypes extent source name u p).getLast? := by
  have hplace := hbelow.of_parent? hparent
  have hup : p ∈ below.ancestors := Node.ancestors_of_parent? hparent ▸ List.mem_cons_self
  have hholder : ∀ decl ∈ p.children, decl.kind = .declaration → decl.holder? = some p :=
    fun decl hdecl _ => by
      rw [Node.holder?, Node.ancestors_of_parent? (Node.parent?_of_mem_children hdecl)]
      exact List.find?_cons_of_pos (by rw [Node.opensNoScope, hp]; rfl)
  cases hfound : blockBinding? source name p below with
  | some type =>
    exact (getLast?_blockTypes ht hu hname hbelow hwithin hparent hplace hholder
      (hsettled p hup hp hreached) hfound).symm
  | none =>
    refine (List.getLast?_eq_none_iff.mpr (List.flatMap_eq_nil_iff.mpr fun decl hdecl => ?_)).symm
    by_contra hseen
    obtain ⟨hout, q, hq, hqparent⟩ := hsettled p hup hp hreached decl hdecl hseen
    obtain ⟨hdeclPlace, hkind, hstands⟩ := (Node.mem_declarationsIn_iff hplace).mp hdecl
    rw [Node.ancestors_of_parent? hparent] at hq
    rcases List.mem_cons.mp hq with rfl | hq
    · exact hseen (typesBefore_eq_nil ht hu hname hbelow hwithin hparent hdeclPlace hkind hqparent
        hout hfound)
    · have hlong := List.mem_of_find?_eq_some hstands
      rw [Node.ancestors_of_parent? hqparent] at hlong
      have hshort := Node.length_path_of_mem_ancestors hq
      rcases List.mem_cons.mp hlong with rfl | hlong
      · exact Nat.lt_irrefl _ hshort
      · exact Nat.lt_asymm hshort (Node.length_path_of_mem_ancestors hlong)

/-- **A type that a case group gives the name** is what the scopes further out make of it. -/
theorem findSome?_of_group (hp : p.kind = .caseStatement) (hbelow : below.PlaceOf t)
    (hwithin : u.isWithin below = true) (hparent : below.parent? = some p)
    (hgroup : p ∈ u.ancestors) (hreached : Reached extent source name u p)
    (hsettled : Settled extent source name u below)
    {type : CType}
    (hfound : blockBinding? source name p below = some type) :
    p.ancestors.findSome? (scopeMeaning? extent source name u) =
      some ⟨.blockVariable, type⟩ := by
  have hplace := hbelow.of_parent? hparent
  -- what the search finds stands in a block, and with it the whole group
  have hholder {decl : Node} (hdecl : decl ∈ p.children) : decl.holder? = p.holder? := by
    rw [Node.holder?, Node.ancestors_of_parent? (Node.parent?_of_mem_children hdecl)]
    exact List.find?_cons_of_neg (by rw [Node.opensNoScope, hp]; exact Bool.false_ne_true)
  obtain ⟨decl, hdecl, hkind, hseen⟩ :=
    exists_of_blockBinding? extent ht hu hbelow hwithin hparent hfound
  obtain ⟨block, hblock, hcompound⟩ := hsight.of_group hgroup hp hreached decl hdecl hkind hseen
  rw [hholder hdecl] at hblock
  have hup := List.mem_of_find?_eq_some hblock
  have hin : block ∈ below.ancestors := by
    rw [Node.ancestors_of_parent? hparent]
    exact List.mem_cons_of_mem p hup
  obtain ⟨-, inner, outer, hsplit, hopen⟩ := List.find?_eq_some_iff_append.mp hblock
  have hinner : ∀ scope ∈ p :: inner, scopeMeaning? extent source name u scope = none := by
    refine List.forall_mem_cons.mpr ⟨scopeMeaning?_of_opensNoScope ?_, fun scope hscope =>
      scopeMeaning?_of_opensNoScope (by simpa using hopen scope hscope)⟩
    rw [Node.opensNoScope, hp]
    rfl
  have houter := hreached.of_ancestors_eq hgroup hsplit hinner
  have hlast := getLast?_blockTypes ht hu hname hbelow hwithin hparent
    (hplace.of_mem_ancestors hup) (fun decl hdecl _ => (hholder hdecl).trans hblock)
    (hsettled block hin hcompound houter) hfound
  have hmeaning : scopeMeaning? extent source name u block = some ⟨.blockVariable, type⟩ := by
    rw [scopeMeaning?, hcompound]
    dsimp only
    rw [hlast, Option.map_some]
  rw [hsplit, List.findSome?_append, List.findSome?_eq_none_iff.mpr
    (List.forall_mem_cons.mp hinner).2, Option.none_or, List.findSome?_cons, hmeaning]

omit ht hu hname hsight in
/-- A list of one item at most ends with its first. -/
theorem getLast?_eq_head? {l : List CType} (h : l.length ≤ 1) : l.getLast? = l.head? := by
  match l with
  | [] | [_] => rfl
  | _ :: _ :: _ => exact absurd h (by simp)

include hbody in
omit hu hname in
/-- **The search in the header of a loop** finds what the header makes of the name. -/
theorem headerBinding?_eq_getLast? (hp : p.kind = .forStatement) (hloop : p ∈ u.ancestors)
    (hreached : Reached extent source name u p) (hbelow : below.PlaceOf t)
    (hwithin : u.isWithin below = true) (hparent : below.parent? = some p) :
    headerBinding? source name p below = (headerTypes extent source name u p).getLast? := by
  obtain ⟨honce, hown⟩ := hsight.of_loop hloop hp hreached
  rw [headerBinding?, getLast?_eq_head? honce]
  cases hinit : p.field? .initializer with
  | none =>
    rw [headerTypes, hinit]
    rfl
  | some init =>
    rw [Option.bind_eq_bind, Option.bind_some]
    have hplace := (hbelow.of_parent? hparent).of_field? hinit
    have hbeside := Node.parent?_of_mem_children (List.mem_of_find?_eq_some hinit)
    have htypes (hkind : init.kind = .declaration) : headerTypes extent source name u p =
        typesBefore extent source name u init := by
      rw [headerTypes, hinit]
      simp [hkind]
    by_cases hkind : init.kind = .declaration
    · cases hin : u.isWithin init with
      | true =>
        have hsame := Node.eq_of_isWithin_of_parent? hplace hbelow hbeside hparent hin hwithin
        rw [if_neg (by rw [hsame, Node.sameAs_self]; simp), hown init hinit hin]
        rfl
      | false =>
        have hne : ¬ init.sameAs below = true := fun hsame => by
          rw [hplace.eq_of_sameAs hbelow hsame, hwithin] at hin
          contradiction
        have hstop := (hbody.loops p hloop hp init hinit).resolve_left (by rw [hin]; simp)
        rw [if_pos ⟨hkind, hne⟩, htypes hkind, typesBefore_eq ht hplace hstop]
    · rw [if_neg (fun h => hkind h.1), headerTypes, hinit]
      simp [hkind]

include hbody in
omit hname in
/-- **The search in the parameters of a function** finds what they make of the name. -/
theorem typeOfParameter?_eq_getLast? (hp : p.kind = .functionDefinition) (hf : p ∈ u.ancestors)
    (hreached : Reached extent source name u p) :
    Declarator.typeOfParameter? source p name = (parameterTypes source name u p).getLast? := by
  obtain ⟨honce, hplain⟩ := hsight.of_function hf hp hreached
  rw [getLast?_eq_head? honce, parameterTypes]
  cases hd : p.field? .declarator with
  | none =>
    rw [Declarator.typeOfParameter?, hd]
    rfl
  | some d =>
    have hplace := (hu.of_mem_ancestors hf).of_field? hd
    obtain ⟨hplain, hlists⟩ := hplain d hd
    rw [Declarator.typeOfParameter?_eq ht hplace hd hplain (hbody.functions p hf hp d hd),
      Option.bind_some]
    rcases hlists with hown | hnone
    · rw [hplain.parameterList?_eq_own hown]
    · have hempty {test : Node → Bool} : (((Declarator.levels d).find? test).bind
          (·.field? .parameters)).toList.flatMap (listTypes source name u) = [] := by
        refine List.flatMap_eq_nil_iff.mpr fun list hlist => ?_
        obtain ⟨l, hl, hfield⟩ := Option.bind_eq_some_iff.mp (Option.mem_toList.mp hlist)
        exact hnone l (List.mem_of_find?_eq_some hl) list hfield
      rw [Declarator.parameterList?_eq hplain, Declarator.ownParameters?, hempty, hempty]

include hbody in
/-- **The search in a scope** finds what the scope makes of the name. -/
theorem scopeBinding?_eq (hp : p.kind ≠ .caseStatement) (hscope : p ∈ u.ancestors)
    (hbelow : below.PlaceOf t) (hwithin : u.isWithin below = true)
    (hparent : below.parent? = some p) (hreached : Reached extent source name u p)
    (hsettled : Settled extent source name u below) :
    scopeBinding? source name p below = scopeMeaning? extent source name u p := by
  rw [scopeMeaning?]
  split
  · next hkind =>
    rw [scopeBinding?, hkind, ← blockBinding?_eq_getLast? ht hu hname hkind hbelow hwithin hparent
      hreached hsettled]
  · next hkind =>
    rw [scopeBinding?, hkind, ← headerBinding?_eq_getLast? ht hsight hbody hkind hscope hreached
      hbelow hwithin hparent]
  · next hkind =>
    rw [scopeBinding?, hkind, ← typeOfParameter?_eq_getLast? ht hu hsight hbody hkind hscope
      hreached]
  · next hblock hloop hfunction =>
    rw [scopeBinding?]
    split <;> first | contradiction | rfl

include hbody in
/-- **The search outward** finds what the innermost scope makes of the name. -/
theorem localBinding?_eq : ∀ {below : Node}, below.PlaceOf t → u.isWithin below = true →
    (∀ inner ∈ u.ancestors, below.path.length ≤ inner.path.length →
      scopeMeaning? extent source name u inner = none) →
      Settled extent source name u below → localBinding? source name below below.ancestors =
        below.ancestors.findSome? (scopeMeaning? extent source name u)
  | .root _, _, _, _, _ => rfl
  | .child p i v, hbelow, hwithin, hpassed, hsettled => by
    have hup : p ∈ u.ancestors := by
      rcases (hu.isWithin_iff_mem hbelow).mp hwithin with heq | hmem
      · rw [← heq]
        exact List.mem_cons_self
      · exact Node.mem_ancestors_trans List.mem_cons_self hmem
    have hreached : Reached extent source name u p := hpassed
    have hrest (hnone : scopeMeaning? extent source name u p = none)
        (hnext : Settled extent source name u p) :=
      localBinding?_eq hbelow.1 (Node.isWithin_of_mem_ancestors hup)
        (hreached.of_le hup hnone) hnext
    rw [Node.ancestors, localBinding?, List.findSome?_cons]
    by_cases hp : p.kind = .caseStatement
    · have hscope : scopeMeaning? extent source name u p = none :=
        scopeMeaning?_of_opensNoScope (by rw [Node.opensNoScope, hp]; rfl)
      rw [scopeBinding?, hp, hscope]
      cases hfound : blockBinding? source name p (.child p i v) with
      | some type =>
        exact (findSome?_of_group ht hu hname hsight hp hbelow hwithin rfl hup hreached hsettled
          hfound).symm
      | none =>
        refine hrest hscope (hsettled.of_child
          fun block hblock hkind _ decl hdecl hseen hout hparent => ?_)
        obtain ⟨hplace, hdeclKind, -⟩ :=
          (Node.mem_declarationsIn_iff (hbelow.1.of_mem_ancestors hblock)).mp hdecl
        exact hseen (typesBefore_eq_nil ht hu hname hbelow hwithin rfl hplace hdeclKind hparent
          hout hfound)
    · rw [scopeBinding?_eq ht hu hname hsight hbody hp hup hbelow hwithin rfl hreached hsettled]
      cases hmeaning : scopeMeaning? extent source name u p with
      | some meaning => rfl
      | none =>
        refine hrest hmeaning (hsettled.of_child
          fun block hblock hkind hreached decl hdecl hseen hout hparent => ?_)
        obtain ⟨-, q, hq, -, hgroup⟩ := hsight.of_block
          (Node.mem_ancestors_trans hblock hup) hkind hreached decl hdecl hseen
        obtain rfl := Option.some.inj (hparent.symm.trans hq)
        obtain ⟨-, -, hstands⟩ :=
          (Node.mem_declarationsIn_iff (hbelow.1.of_mem_ancestors hblock)).mp hdecl
        -- the declaration would stand in this block, and not further out
        rw [Node.holder?, Node.ancestors_of_parent? hparent, List.find?_cons_of_pos
          (by rw [Node.opensNoScope, hgroup.resolve_right hp]; rfl)] at hstands
        obtain rfl := Option.some.inj hstands
        exact Nat.lt_irrefl _ (Node.length_path_of_mem_ancestors hblock)

end Outward

/-- A name that a file, a parameter and a case group declare, in a loop over the parameter. -/
def shadowedText : String :=
  "int x;\nint *g(long x) \x7b for (int i = x;;) " ++
    "switch (i) \x7b case 1: ; char x = 2; x = i; \x7d \x7d\n"

/-- The tree of the loop in its function. -/
def shadowedTree : Tree :=
  .node .sourceUnit none ⟨0, 88⟩ false
    [.node .declaration none ⟨0, 6⟩ false
       [.node (.other "primitive_type") (some .type) ⟨0, 3⟩ false [],
        .node .identifier (some .declarator) ⟨4, 5⟩ false [],
        .node (.token ";") none ⟨5, 6⟩ false []],
     .node .functionDefinition none ⟨7, 87⟩ false
       [.node (.other "primitive_type") (some .type) ⟨7, 10⟩ false [],
        .node .pointerDeclarator (some .declarator) ⟨11, 21⟩ false
          [.node (.token "*") none ⟨11, 12⟩ false [],
           .node .functionDeclarator (some .declarator) ⟨12, 21⟩ false
             [.node .identifier (some .declarator) ⟨12, 13⟩ false [],
              .node (.other "parameter_list") (some .parameters) ⟨13, 21⟩ false
                [.node (.token "(") none ⟨13, 14⟩ false [],
                 .node .parameterDeclaration none ⟨14, 20⟩ false
                   [.node (.other "primitive_type") (some .type) ⟨14, 18⟩ false [],
                    .node .identifier (some .declarator) ⟨19, 20⟩ false []],
                 .node (.token ")") none ⟨20, 21⟩ false []]]],
        .node .compoundStatement (some .body) ⟨22, 87⟩ false
          [.node (.token "\x7b") none ⟨22, 23⟩ false [],
           .node .forStatement none ⟨24, 85⟩ false
             [.node (.token "for") none ⟨24, 27⟩ false [],
              .node (.token "(") none ⟨28, 29⟩ false [],
              .node .declaration (some .initializer) ⟨29, 39⟩ false
                [.node (.other "primitive_type") (some .type) ⟨29, 32⟩ false [],
                 .node .initDeclarator (some .declarator) ⟨33, 38⟩ false
                   [.node .identifier (some .declarator) ⟨33, 34⟩ false [],
                    .node (.token "=") none ⟨35, 36⟩ false [],
                    .node .identifier (some .value) ⟨37, 38⟩ false []],
                 .node (.token ";") none ⟨38, 39⟩ false []],
              .node (.token ";") none ⟨39, 40⟩ false [],
              .node (.token ")") none ⟨40, 41⟩ false [],
              .node .switchStatement (some .body) ⟨42, 85⟩ false
                [.node (.token "switch") none ⟨42, 48⟩ false [],
                 .node .parenthesizedExpression (some .condition) ⟨49, 52⟩ false
                   [.node (.token "(") none ⟨49, 50⟩ false [],
                    .node .identifier none ⟨50, 51⟩ false [],
                    .node (.token ")") none ⟨51, 52⟩ false []],
                 .node .compoundStatement (some .body) ⟨53, 85⟩ false
                   [.node (.token "\x7b") none ⟨53, 54⟩ false [],
                    .node .caseStatement none ⟨55, 83⟩ false
                      [.node (.token "case") none ⟨55, 59⟩ false [],
                       .node .numberLiteral (some .value) ⟨60, 61⟩ false [],
                       .node (.token ":") none ⟨61, 62⟩ false [],
                       .node .expressionStatement none ⟨63, 64⟩ false
                         [.node (.token ";") none ⟨63, 64⟩ false []],
                       .node .declaration none ⟨65, 76⟩ false
                         [.node (.other "primitive_type") (some .type) ⟨65, 69⟩ false [],
                          .node .initDeclarator (some .declarator) ⟨70, 75⟩ false
                            [.node .identifier (some .declarator) ⟨70, 71⟩ false [],
                             .node (.token "=") none ⟨72, 73⟩ false [],
                             .node .numberLiteral (some .value) ⟨74, 75⟩ false []],
                          .node (.token ";") none ⟨75, 76⟩ false []],
                       .node .expressionStatement none ⟨77, 83⟩ false
                         [.node .assignmentExpression none ⟨77, 82⟩ false
                            [.node .identifier (some .left) ⟨77, 78⟩ false [],
                             .node (.token "=") (some .operator) ⟨79, 80⟩ false [],
                             .node .identifier (some .right) ⟨81, 82⟩ false []],
                          .node (.token ";") none ⟨82, 83⟩ false []]],
                    .node (.token "\x7d") none ⟨84, 85⟩ false []]]],
           .node (.token "\x7d") none ⟨86, 87⟩ false []]]]

/-- The names of the function's body, the declared ones included. -/
def shadowedNames : List Node :=
  (Node.root shadowedTree).walk.filter fun n => n.kind == .identifier && decide (22 ≤ n.start)

/-- A function that returns a pointer to a function, with a variable of a case group used in the
next group, and a variable used in its own declaration. -/
def misreadText : String :=
  "int (*f(int x))(char x) \x7b " ++
    "switch (x) \x7b case 1: ; char a = 2; case 2: a = 3; \x7d int b = 1, c = b; \x7d\n"

/-- The tree of the function. -/
def misreadTree : Tree :=
  .node .sourceUnit none ⟨0, 98⟩ false
    [.node .functionDefinition none ⟨0, 97⟩ false
       [.node (.other "primitive_type") (some .type) ⟨0, 3⟩ false [],
        .node .functionDeclarator (some .declarator) ⟨4, 23⟩ false
          [.node .parenthesizedDeclarator (some .declarator) ⟨4, 15⟩ false
             [.node (.token "(") none ⟨4, 5⟩ false [],
              .node .pointerDeclarator (some .declarator) ⟨5, 14⟩ false
                [.node (.token "*") none ⟨5, 6⟩ false [],
                 .node .functionDeclarator (some .declarator) ⟨6, 14⟩ false
                   [.node .identifier (some .declarator) ⟨6, 7⟩ false [],
                    .node (.other "parameter_list") (some .parameters) ⟨7, 14⟩ false
                      [.node (.token "(") none ⟨7, 8⟩ false [],
                       .node .parameterDeclaration none ⟨8, 13⟩ false
                         [.node (.other "primitive_type") (some .type) ⟨8, 11⟩ false [],
                          .node .identifier (some .declarator) ⟨12, 13⟩ false []],
                       .node (.token ")") none ⟨13, 14⟩ false []]]],
              .node (.token ")") none ⟨14, 15⟩ false []],
           .node (.other "parameter_list") (some .parameters) ⟨15, 23⟩ false
             [.node (.token "(") none ⟨15, 16⟩ false [],
              .node .parameterDeclaration none ⟨16, 22⟩ false
                [.node (.other "primitive_type") (some .type) ⟨16, 20⟩ false [],
                 .node .identifier (some .declarator) ⟨21, 22⟩ false []],
              .node (.token ")") none ⟨22, 23⟩ false []]],
        .node .compoundStatement (some .body) ⟨24, 97⟩ false
          [.node (.token "\x7b") none ⟨24, 25⟩ false [],
           .node .switchStatement none ⟨26, 77⟩ false
             [.node (.token "switch") none ⟨26, 32⟩ false [],
              .node .parenthesizedExpression (some .condition) ⟨33, 36⟩ false
                [.node (.token "(") none ⟨33, 34⟩ false [],
                 .node .identifier none ⟨34, 35⟩ false [],
                 .node (.token ")") none ⟨35, 36⟩ false []],
              .node .compoundStatement (some .body) ⟨37, 77⟩ false
                [.node (.token "\x7b") none ⟨37, 38⟩ false [],
                 .node .caseStatement none ⟨39, 60⟩ false
                   [.node (.token "case") none ⟨39, 43⟩ false [],
                    .node .numberLiteral (some .value) ⟨44, 45⟩ false [],
                    .node (.token ":") none ⟨45, 46⟩ false [],
                    .node .expressionStatement none ⟨47, 48⟩ false
                      [.node (.token ";") none ⟨47, 48⟩ false []],
                    .node .declaration none ⟨49, 60⟩ false
                      [.node (.other "primitive_type") (some .type) ⟨49, 53⟩ false [],
                       .node .initDeclarator (some .declarator) ⟨54, 59⟩ false
                         [.node .identifier (some .declarator) ⟨54, 55⟩ false [],
                          .node (.token "=") none ⟨56, 57⟩ false [],
                          .node .numberLiteral (some .value) ⟨58, 59⟩ false []],
                       .node (.token ";") none ⟨59, 60⟩ false []]],
                 .node .caseStatement none ⟨61, 75⟩ false
                   [.node (.token "case") none ⟨61, 65⟩ false [],
                    .node .numberLiteral (some .value) ⟨66, 67⟩ false [],
                    .node (.token ":") none ⟨67, 68⟩ false [],
                    .node .expressionStatement none ⟨69, 75⟩ false
                      [.node .assignmentExpression none ⟨69, 74⟩ false
                         [.node .identifier (some .left) ⟨69, 70⟩ false [],
                          .node (.token "=") (some .operator) ⟨71, 72⟩ false [],
                          .node .numberLiteral (some .right) ⟨73, 74⟩ false []],
                       .node (.token ";") none ⟨74, 75⟩ false []]],
                 .node (.token "\x7d") none ⟨76, 77⟩ false []]],
           .node .declaration none ⟨78, 95⟩ false
             [.node (.other "primitive_type") (some .type) ⟨78, 81⟩ false [],
              .node .initDeclarator (some .declarator) ⟨82, 87⟩ false
                [.node .identifier (some .declarator) ⟨82, 83⟩ false [],
                 .node (.token "=") none ⟨84, 85⟩ false [],
                 .node .numberLiteral (some .value) ⟨86, 87⟩ false []],
              .node (.token ",") none ⟨87, 88⟩ false [],
              .node .initDeclarator (some .declarator) ⟨89, 94⟩ false
                [.node .identifier (some .declarator) ⟨89, 90⟩ false [],
                 .node (.token "=") none ⟨91, 92⟩ false [],
                 .node .identifier (some .value) ⟨93, 94⟩ false []],
              .node (.token ";") none ⟨94, 95⟩ false []],
           .node (.token "\x7d") none ⟨96, 97⟩ false []]]]

/-- The uses of the parameter, of the group's variable and of the declaration's variable. -/
def misreadUses : List Node :=
  (Node.root misreadTree).walk.filter fun n =>
    n.kind == .identifier && [34, 69, 93].contains n.start

end Scoping

end ProbeWeaver
