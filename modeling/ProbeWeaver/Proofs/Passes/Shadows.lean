import ProbeWeaver.Proofs.Passes.Frees
import ProbeWeaver.Proofs.Typing.Sight

/-!
# Proofs/Passes/Shadows — which array a freed name denotes

A call before a return frees an array by its name alone.  The name denotes that array unless it is
bound again (`Rebound`): by a construct around the return inside the block of the array, by a later
declaration of the block, or because the array's own declaration holds the return.

* `Denotes.lookup_eq` — what a name denotes is what looking it up finds.
* `denotes_iff_not_rebound` — for an array declared around the return.
-/

namespace ProbeWeaver

open Node (PlaceOf)
open NameTable (bindingApart? localBinding? blockBinding? scopeBinding?)

variable {t : Tree} {u : SourceUnit} {decl block below ret : Node} {d e : Declarator} {name : String}
  {lottery : Relocation.Lottery}

/-! ## The last in order -/

/-- The last element is the one that no other comes after. -/
theorem getLast?_eq_some_iff_of_pairwise {α : Type} {R : α → α → Prop} {l : List α} {a : α}
    (hasymm : ∀ a b, R a b → ¬ R b a) (h : l.Pairwise R) :
    l.getLast? = some a ↔ a ∈ l ∧ ∀ b ∈ l, ¬ R a b := by
  rw [List.getLast?_eq_some_iff]
  constructor
  · rintro ⟨front, rfl⟩
    refine ⟨List.mem_append_right _ (List.mem_singleton_self a), fun b hb hab => ?_⟩
    rcases List.mem_append.mp hb with hb | hb
    · exact hasymm a b hab ((List.pairwise_append.mp h).2.2 b hb a (List.mem_singleton_self a))
    · rw [List.mem_singleton.mp hb] at hab
      exact hasymm a a hab hab
  · rintro ⟨ha, hlast⟩
    obtain ⟨front, back, rfl⟩ := List.append_of_mem ha
    cases back with
    | nil => exact ⟨front, rfl⟩
    | cons b back =>
      have hback := (List.pairwise_cons.mp (List.pairwise_append.mp h).2.1).1
      exact absurd (hback b List.mem_cons_self) (hlast b (by simp))

namespace Node

/-- A place behind another one keeps behind it below. -/
theorem precedes_of_path {m n : Node} {p : List Nat} {i j k l : Nat} (hm : m.path = i :: k :: p)
    (hn : n.path = j :: l :: p) (h : k < l ∨ k = l ∧ i < j) : m.precedes n = true := by
  have hrest : [k, i] < [l, j] := by
    rcases h with h | ⟨rfl, h⟩
    · exact .rel h
    · exact .cons (.rel h)
  rw [precedes, decide_eq_true_iff, hm, hn, List.reverse_cons, List.reverse_cons, List.reverse_cons,
    List.reverse_cons, List.append_assoc, List.append_assoc]
  exact List.append_left_lt hrest

/-- The path of a child goes on from the path above. -/
theorem exists_path_of_mem_children {m n : Node} (h : m ∈ n.children) :
    ∃ i, m.path = i :: n.path := by
  obtain ⟨i, hi, rfl⟩ := List.mem_mapIdx.mp h
  exact ⟨i, rfl⟩

end Node

namespace Relocation

/-! ## Declarators of a name -/

/-- **The declarators of a name** in a block before a place below it. -/
def namesakes (u : SourceUnit) (name : String) (block below : Node) : List Declarator :=
  (declarationsBefore block below.start).flatMap fun decl =>
    (u.declarators decl).filter fun d => u.text d.name == name

theorem blockBinding?_eq : blockBinding? u.source name block below =
    (namesakes u name block below).getLast?.map (·.type) := by
  rw [blockBinding?, namesakes, ← List.getLast?_map, List.map_flatMap]
  rfl

theorem mem_namesakes_iff : d ∈ namesakes u name block below ↔
    ∃ decl ∈ declarationsBefore block below.start, d ∈ u.declarators decl ∧
      u.text d.name = name := by
  simp only [namesakes, List.mem_flatMap, List.mem_filter, beq_iff_eq]

/-- The declarators of a name stand in order. -/
theorem pairwise_namesakes (u : SourceUnit) (name : String) (block below : Node) :
    (namesakes u name block below).Pairwise fun d e => d.node.precedes e.node = true := by
  have hpath {decl : Node} {d : Declarator} (hd : d ∈ u.declarators decl) :
      ∃ i, d.node.path = i :: decl.path :=
    Node.exists_path_of_mem_children
      (List.mem_filter.mp (Declarator.exists_of_mem_declarators hd).1).1
  refine List.pairwise_flatMap.mpr ⟨fun decl hdecl => ?_, ?_⟩
  · obtain ⟨k, hk⟩ := Node.exists_path_of_mem_children
      (mem_children_of_mem_declarationsBefore hdecl)
    refine List.Pairwise.filter _ (List.Pairwise.filterMap _ (fun m n hmn d hd e he => ?_)
      (decl.pairwise_path.filter fun c => c.tree.field == some .declarator))
    obtain ⟨named, -, rfl⟩ := Option.map_eq_some_iff.mp hd
    obtain ⟨named', -, rfl⟩ := Option.map_eq_some_iff.mp he
    obtain ⟨i, j, hm, hn, hij⟩ := hmn
    rw [hk] at hm hn
    exact Node.precedes_of_path hm hn (.inr ⟨rfl, hij⟩)
  · have hdecls : (declarationsBefore block below.start).Pairwise fun a b =>
        ∃ i j, a.path = i :: block.path ∧ b.path = j :: block.path ∧ i < j :=
      ((block.pairwise_path.filter _).sublist (List.takeWhile_sublist _)).filter _
    refine hdecls.imp fun {a b} hab d hd e he => ?_
    obtain ⟨k, l, ha, hb, hkl⟩ := hab
    obtain ⟨i, hi⟩ := hpath (List.mem_filter.mp hd).1
    obtain ⟨j, hj⟩ := hpath (List.mem_filter.mp he).1
    rw [ha] at hi
    rw [hb] at hj
    exact Node.precedes_of_path hi hj (.inl hkl)

/-! ## What a name denotes -/

/-- The statement of a declaration's block that holds the place. -/
def memberAround (ret decl : Node) : Node := (ret.scopesApart decl).getLastD ret

/-- **The name of a declarator denotes it** at a place: no construct further in binds the name, and
no later declaration of the block does. -/
def Denotes (u : SourceUnit) (ret : Node) (d : Declarator) : Prop :=
  ∃ decl block, d.node.parent? = some decl ∧ decl.parent? = some block ∧
    block.kind = .compoundStatement ∧ block ∈ ret.ancestors ∧
      bindingApart? u.source (u.text d.name) ret decl = none ∧
        (namesakes u (u.text d.name) block (memberAround ret decl)).getLast? = some d

/-- **The name of a declarator is bound again** at a place: by a construct around the place inside the
block, by a later declarator of the block, or before its declaration is over. -/
def Rebound (u : SourceUnit) (ret : Node) (d : Declarator) : Prop :=
  ∃ decl block, d.node.parent? = some decl ∧ decl.parent? = some block ∧
    ((bindingApart? u.source (u.text d.name) ret decl).isSome = true ∨
      (∃ e ∈ namesakes u (u.text d.name) block (memberAround ret decl),
        d.node.precedes e.node = true) ∨
        (memberAround ret decl).start ≤ decl.start)

/-- The constructs around a place, cut at the block of a declaration. -/
theorem ancestors_eq_of_mem (hparent : decl.parent? = some block) (hblock : block ∈ ret.ancestors) :
    ret.ancestors = ret.scopesApart decl ++ block :: block.ancestors := by
  obtain ⟨inner, hinner⟩ := Node.exists_ancestors_eq hblock
  have hdecl : decl.ancestors = block :: block.ancestors := Node.ancestors_of_parent? hparent
  have hdeeper := Node.pairwise_ancestors ret
  rw [hinner, List.pairwise_append] at hdeeper
  rw [Node.scopesApart_eq hinner (fun x hx y hy => ?_) fun x hx => ?_]
  · exact hinner
  · rw [hdecl] at hy
    refine Bool.eq_false_iff.mpr fun hsame => ?_
    have hlt := hdeeper.2.2 x hx y hy
    rw [beq_iff_eq.mp hsame] at hlt
    exact Nat.lt_irrefl _ hlt
  · rw [hdecl, ← Option.some.inj hx]
    exact List.mem_cons_self

/-- A block whose last declarator of a name is known binds the name. -/
theorem scopeBinding?_of_getLast? (hkind : block.kind = .compoundStatement)
    (hlast : (namesakes u name block below).getLast? = some d) :
    scopeBinding? u.source name block below = some ⟨.blockVariable, d.type⟩ := by
  rw [scopeBinding?, hkind]
  show (blockBinding? _ _ _ _).map _ = _
  rw [blockBinding?_eq, hlast]
  rfl

/-- **What a name denotes is what looking it up finds.** -/
theorem Denotes.lookup_eq (h : Denotes u ret d) : u.names.lookup u.source (u.text d.name) ret =
    some ⟨.blockVariable, d.type⟩ := by
  obtain ⟨decl, block, -, hparent, hkind, hblock, hnone, hlast⟩ := h
  rw [bindingApart?] at hnone
  rw [NameTable.lookup, ancestors_eq_of_mem hparent hblock, NameTable.localBinding?_append, hnone]
  dsimp only
  rw [localBinding?, ← memberAround, scopeBinding?_of_getLast? hkind hlast]

/-- Further out than a block that binds a name, the name is bound. -/
theorem localBinding?_ne_none {inner more : List Node} (hkind : block.kind = .compoundStatement)
    (hlast : (namesakes u name block (inner.getLastD ret)).getLast? = some d) :
    localBinding? u.source name ret (inner ++ block :: more) ≠ none := by
  rw [NameTable.localBinding?_append]
  cases localBinding? u.source name ret inner with
  | some binding => exact Option.some_ne_none binding
  | none =>
    dsimp only
    rw [localBinding?, scopeBinding?_of_getLast? hkind hlast]
    exact Option.some_ne_none _

/-- **A name denotes one array.** -/
theorem Denotes.eq_of_name (hd : Denotes u ret d) (he : Denotes u ret e)
    (hname : u.text d.name = u.text e.name) : d = e := by
  obtain ⟨decl, block, -, hparent, hkind, hblock, hnone, hlast⟩ := hd
  obtain ⟨decl', block', -, hparent', hkind', hblock', hnone', hlast'⟩ := he
  rw [hname] at hnone hlast
  rw [memberAround] at hlast hlast'
  rw [bindingApart?] at hnone hnone'
  have hsplit := (ancestors_eq_of_mem hparent hblock).symm.trans
    (ancestors_eq_of_mem hparent' hblock')
  rcases List.append_eq_append_iff.mp hsplit with ⟨more, hinner, hrest⟩ | ⟨more, hinner, hrest⟩
  · cases more with
    | nil =>
      obtain ⟨rfl, -⟩ := List.cons.inj hrest
      rw [List.append_nil] at hinner
      rw [hinner, hlast] at hlast'
      exact Option.some.inj hlast'
    | cons scope more =>
      obtain ⟨rfl, -⟩ := List.cons.inj hrest
      rw [hinner] at hnone'
      exact absurd hnone' (localBinding?_ne_none hkind hlast)
  · cases more with
    | nil =>
      obtain ⟨rfl, -⟩ := List.cons.inj hrest
      rw [List.append_nil] at hinner
      rw [hinner, hlast'] at hlast
      exact (Option.some.inj hlast).symm
    | cons scope more =>
      obtain ⟨rfl, -⟩ := List.cons.inj hrest
      rw [hinner] at hnone
      exact absurd hnone (localBinding?_ne_none hkind' hlast')

/-- A declarator is among those of its name before a place that starts behind its declaration. -/
theorem self_mem_namesakes_iff (ht : t.isLaidOut = true) (hplace : decl.PlaceOf t)
    (hkind : decl.kind = .declaration) (hd : d ∈ u.declarators decl)
    (hparent : decl.parent? = some block) :
    d ∈ namesakes u (u.text d.name) block below ↔ decl.start < below.start := by
  rw [mem_namesakes_iff]
  constructor
  · rintro ⟨decl', hbefore, hd', -⟩
    obtain rfl := Option.some.inj ((SourceUnit.declarator?_of_mem hd).1.symm.trans
      (SourceUnit.declarator?_of_mem hd').1)
    exact ((mem_declarationsBefore_iff ht (hplace.of_parent? hparent)).mp hbefore).2.2
  · intro hlt
    exact ⟨decl, (mem_declarationsBefore_iff ht (hplace.of_parent? hparent)).mpr
      ⟨hplace.mem_children hparent, hkind, hlt⟩, hd, rfl⟩

/-- **An array declared around a return** is denoted there unless its name is bound again. -/
theorem denotes_iff_not_rebound (ht : t.isLaidOut = true) (haround : DeclaredAround d ret)
    (hdecl : ∃ decl, decl.kind = .declaration ∧ d ∈ u.declarators decl ∧ decl.PlaceOf t) :
    Denotes u ret d ↔ ¬ Rebound u ret d := by
  obtain ⟨decl, block, hnode, hparent, hkind, hblock, -⟩ := haround
  obtain ⟨decl', hdeclKind, hd, hplace⟩ := hdecl
  obtain rfl := Option.some.inj (hnode.symm.trans (SourceUnit.declarator?_of_mem hd).1)
  have hlast := getLast?_eq_some_iff_of_pairwise (a := d)
    (fun a b => a.node.precedes_asymm b.node)
    (pairwise_namesakes u (u.text d.name) block (memberAround ret decl))
  rw [self_mem_namesakes_iff ht hplace hdeclKind hd hparent] at hlast
  constructor
  · rintro ⟨decl', block', hnode', hparent', -, -, hnone, hlast'⟩ ⟨decl'', block'', hnode'',
      hparent'', hrebound⟩
    obtain rfl := Option.some.inj (hnode.symm.trans hnode')
    obtain rfl := Option.some.inj (hnode.symm.trans hnode'')
    obtain rfl := Option.some.inj (hparent.symm.trans hparent')
    obtain rfl := Option.some.inj (hparent.symm.trans hparent'')
    obtain ⟨hlt, hnext⟩ := hlast.mp hlast'
    rcases hrebound with hsome | ⟨e, he, hprecedes⟩ | hle
    · rw [hnone] at hsome
      contradiction
    · exact hnext e he hprecedes
    · exact Nat.lt_irrefl _ (Nat.lt_of_lt_of_le hlt hle)
  · intro hnot
    have hcases {P : Prop} (h : P → Rebound u ret d) : ¬ P := fun hP => hnot (h hP)
    refine ⟨decl, block, hnode, hparent, hkind, hblock, ?_, hlast.mpr ⟨?_, fun e he hprecedes => ?_⟩⟩
    · refine Option.not_isSome_iff_eq_none.mp (hcases fun hsome => ?_)
      exact ⟨decl, block, hnode, hparent, .inl hsome⟩
    · refine Nat.lt_of_not_le (hcases fun hle => ?_)
      exact ⟨decl, block, hnode, hparent, .inr (.inr hle)⟩
    · exact hnot ⟨decl, block, hnode, hparent, .inr (.inl ⟨e, he, hprecedes⟩)⟩

/-- **The arrays freed before a return** have different names, each denoting its array, if none of the
names is bound again, and only then. -/
theorem Account.nodup_and_denotes_iff {config : RelocationConfig} {works : List Work}
    (h : Account config u works) (hu : u.root = .root t) (ht : t.isLaidOut = true)
    {calls : List (Nat × Declarator)} (hfree : Work.free ret calls ∈ works) :
    ((calls.map fun call => u.text call.2.name).Nodup ∧
        ∀ call ∈ calls, Denotes u ret call.2) ↔ ∀ call ∈ calls, ¬ Rebound u ret call.2 := by
  obtain ⟨hret, hcalls⟩ := h.calls_eq hfree
  have hiff : ∀ call ∈ calls, (Denotes u ret call.2 ↔ ¬ Rebound u ret call.2) := by
    intro call hcall
    have hmem : call.2 ∈ (arraysInScope u (.of config) ret).filter fun d =>
        !(returnedNames u ret).contains (u.text d.name) := hcalls ▸ List.mem_map_of_mem hcall
    obtain ⟨haround, hdecl, -⟩ :=
      (mem_arraysInScope_iff ht (hret.placeOf hu)).mp (List.mem_filter.mp hmem).1
    exact denotes_iff_not_rebound ht haround hdecl
  constructor
  · exact fun hall call hcall => (hiff call hcall).mp (hall.2 call hcall)
  · intro hnone
    have hdenotes : ∀ call ∈ calls, Denotes u ret call.2 := fun call hcall =>
      (hiff call hcall).mpr (hnone call hcall)
    have hapart : (calls.map Prod.snd).Pairwise fun d e => d.node ≠ e.node := by
      rw [hcalls]
      exact ((pairwise_arraysInScope u (.of config) ret).filter _).imp And.right
    refine ⟨List.pairwise_map.mpr ((List.pairwise_map.mp hapart).imp_of_mem ?_), hdenotes⟩
    intro call call' hcall hcall' hne hname
    exact hne (congrArg Declarator.node
      ((hdenotes call hcall).eq_of_name (hdenotes call' hcall') hname))

end Relocation

end ProbeWeaver
