import ProbeWeaver.Proofs.Passes.Arrays
import ProbeWeaver.Proofs.Tree.Layout

/-!
# Proofs/Passes/Frees — which arrays are freed before a return

The pass decides at a declaration whether its arrays move, and decides it again at each return
behind.  Where no function is defined inside another one the two agree: the arrays in scope of a
return are those that were moved and stand in a block around it (`mem_arraysInScope_iff_moved`).
-/

namespace ProbeWeaver

open Node (PlaceOf)

variable {t : Tree} {u : SourceUnit} {n decl block ret : Node} {d e : Declarator}

namespace Node

/-- A place is a child of the place above. -/
theorem PlaceOf.mem_children (h : n.PlaceOf t) (hp : n.parent? = some block) :
    n ∈ block.children := by
  cases n with
  | root u => exact nomatch hp
  | child p i u =>
    obtain rfl := Option.some.inj hp
    obtain ⟨hi, hu⟩ := List.getElem?_eq_some_iff.mp h.2
    exact List.mem_mapIdx.mpr ⟨i, hi, by rw [hu]⟩

/-- **In a laid out tree** children start in order. -/
theorem PlaceOf.pairwise_start (ht : t.isLaidOut = true) (h : n.PlaceOf t) :
    n.children.Pairwise fun a b => a.start ≤ b.start := by
  refine List.pairwise_iff_getElem.mpr fun i j hi hj hij => ?_
  have hlaid := h.isLaidOut ht
  rw [Tree.isLaidOut_iff] at hlaid
  simp only [children, List.getElem_mapIdx]
  rw [children, List.length_mapIdx] at hi hj
  have hbetween := Tree.stop_le_start_of_lt hlaid (List.getElem?_eq_getElem hi)
    (List.getElem?_eq_getElem hj) hij
  have hspan := PlaceOf.start_le_stop ht
    (h.of_mem_children (List.mem_mapIdx.mpr ⟨i, hi, rfl⟩))
  exact Nat.le_trans hspan hbetween

end Node

namespace Relocation

/-- **The declarations of a block before a byte**, in a laid out tree. -/
theorem mem_declarationsBefore_iff (ht : t.isLaidOut = true) (hblock : block.PlaceOf t)
    {stop : Nat} : decl ∈ declarationsBefore block stop ↔
      decl ∈ block.children ∧ decl.kind = .declaration ∧ decl.start < stop := by
  have hsorted : block.namedChildren.Pairwise fun a b =>
      decide (b.start < stop) = true → decide (a.start < stop) = true := by
    refine ((hblock.pairwise_start ht).filter _).imp fun {a b} hle hlt => ?_
    exact decide_eq_true (Nat.lt_of_le_of_lt hle (of_decide_eq_true hlt))
  rw [declarationsBefore, takeWhile_eq_filter hsorted, List.mem_filter, List.mem_filter,
    Node.namedChildren, List.mem_filter, decide_eq_true_iff, beq_iff_eq]
  constructor
  · rintro ⟨⟨⟨hchild, -⟩, hlt⟩, hkind⟩
    exact ⟨hchild, hkind, hlt⟩
  · rintro ⟨hchild, hkind, hlt⟩
    refine ⟨⟨⟨hchild, ?_⟩, hlt⟩, hkind⟩
    rw [Node.isNamed, hkind]
    rfl

/-- **Declared around**: in a block around the place, in a declaration that starts before it. -/
def DeclaredAround (d : Declarator) (ret : Node) : Prop :=
  ∃ decl block, d.node.parent? = some decl ∧ decl.parent? = some block ∧
    block.kind = .compoundStatement ∧ block ∈ ret.ancestors ∧ decl.start < ret.start

/-- **The arrays in scope**, in a laid out tree. -/
theorem mem_arraysInScope_iff {lottery : Lottery} (ht : t.isLaidOut = true) (hret : ret.PlaceOf t) :
    d ∈ arraysInScope u lottery ret ↔ DeclaredAround d ret ∧
      (∃ decl, decl.kind = .declaration ∧ d ∈ u.declarators decl ∧ decl.PlaceOf t) ∧
        isEligible u d.node = true ∧ isRelocated u lottery d.node d.type = true := by
  rw [arraysInScope, List.mem_mergeSort]
  simp only [List.mem_flatMap, List.mem_filter, relocatedIn, beq_iff_eq, Bool.and_eq_true_iff]
  constructor
  · rintro ⟨block, ⟨hblock, hkind⟩, decl, hdecl, hd, heligible, hmoved⟩
    have hplace := hret.of_mem_ancestors hblock
    obtain ⟨hchild, hdeclKind, hlt⟩ := (mem_declarationsBefore_iff ht hplace).mp hdecl
    exact ⟨⟨decl, block, (SourceUnit.declarator?_of_mem hd).1, Node.parent?_of_mem_children hchild,
      hkind, hblock, hlt⟩, ⟨decl, hdeclKind, hd, hplace.of_mem_children hchild⟩, heligible, hmoved⟩
  · rintro ⟨⟨decl, block, hdecl, hparent, hkind, hblock, hlt⟩, ⟨decl', hdeclKind, hd, hplace⟩,
      heligible, hmoved⟩
    obtain rfl := Option.some.inj (hdecl.symm.trans (SourceUnit.declarator?_of_mem hd).1)
    refine ⟨block, ⟨hblock, hkind⟩, decl, ?_, hd, heligible, hmoved⟩
    exact (mem_declarationsBefore_iff ht (hret.of_mem_ancestors hblock)).mpr
      ⟨hplace.mem_children hparent, hdeclKind, hlt⟩

/-- The declarators of a declaration stand at different places. -/
theorem pairwise_declarators (u : SourceUnit) (decl : Node) :
    (u.declarators decl).Pairwise fun d e => d.node ≠ e.node := by
  refine List.Pairwise.filterMap _ (fun m n hne d hd e he heq => ?_)
    (decl.pairwise_children.filter fun c => c.tree.field == some .declarator)
  obtain ⟨named, -, rfl⟩ := Option.map_eq_some_iff.mp hd
  obtain ⟨named', -, rfl⟩ := Option.map_eq_some_iff.mp he
  obtain rfl : m = n := heq
  rw [Node.sameAs_self] at hne
  contradiction

theorem mem_children_of_mem_declarationsBefore {stop : Nat}
    (hdecl : decl ∈ declarationsBefore block stop) : decl ∈ block.children :=
  (List.mem_filter.mp ((List.takeWhile_sublist _).mem (List.mem_filter.mp hdecl).1)).1

/-- A relocated array of a block has its declaration there. -/
theorem parent?_of_mem_relocatedIn {lottery : Lottery} {stop : Nat}
    (hdecl : decl ∈ declarationsBefore block stop) (hd : d ∈ relocatedIn u lottery decl) :
    d.node.parent? = some decl ∧ decl.parent? = some block :=
  ⟨(SourceUnit.declarator?_of_mem (List.mem_filter.mp hd).1).1,
    Node.parent?_of_mem_children (mem_children_of_mem_declarationsBefore hdecl)⟩

/-- The relocated arrays of a block stand at different places. -/
theorem pairwise_relocatedIn (u : SourceUnit) (lottery : Lottery) (block : Node) (stop : Nat) :
    ((declarationsBefore block stop).flatMap (relocatedIn u lottery)).Pairwise fun d e =>
      d.node ≠ e.node := by
  refine List.pairwise_flatMap.mpr ⟨fun decl _ => (pairwise_declarators u decl).filter _, ?_⟩
  have hapart : (declarationsBefore block stop).Pairwise fun a b => a.sameAs b = false :=
    (((block.pairwise_children.filter _).sublist (List.takeWhile_sublist _)).filter _)
  refine hapart.imp_of_mem fun {a b} ha hb hne d hd e he heq => ?_
  have hdecl := (parent?_of_mem_relocatedIn ha hd).1
  rw [heq, (parent?_of_mem_relocatedIn hb he).1] at hdecl
  rw [Option.some.inj hdecl, Node.sameAs_self] at hne
  contradiction

/-- **Each array in scope stands there once**, in order. -/
theorem pairwise_arraysInScope (u : SourceUnit) (lottery : Lottery) (ret : Node) :
    (arraysInScope u lottery ret).Pairwise fun d e =>
      d.node.start ≤ e.node.start ∧ d.node ≠ e.node := by
  refine (List.pairwise_mergeSort (fun a b c hab hbc => ?_) (fun a b => ?_) _).imp
    (fun h => of_decide_eq_true h) |>.and ?_
  · exact decide_eq_true (Nat.le_trans (of_decide_eq_true hab) (of_decide_eq_true hbc))
  · rw [Bool.or_eq_true_iff, decide_eq_true_iff, decide_eq_true_iff]
    exact Nat.le_total _ _
  refine ((List.mergeSort_perm _ _).pairwise_iff fun {d e} hne => hne.symm).mpr ?_
  refine List.pairwise_flatMap.mpr ⟨fun block _ => pairwise_relocatedIn u lottery block _, ?_⟩
  -- the blocks around a return are at different depths
  refine (ret.pairwise_ancestors.filter _).imp fun {a b} hlt d hd e he heq => ?_
  obtain ⟨decl, hdecl, hd⟩ := List.mem_flatMap.mp hd
  obtain ⟨decl', hdecl', he⟩ := List.mem_flatMap.mp he
  obtain ⟨hdp, hda⟩ := parent?_of_mem_relocatedIn hdecl hd
  obtain ⟨hep, hea⟩ := parent?_of_mem_relocatedIn hdecl' he
  obtain rfl := Option.some.inj (hdp.symm.trans (heq ▸ hep))
  obtain rfl := Option.some.inj (hda.symm.trans hea)
  exact Nat.lt_irrefl _ hlt

end Relocation

/-- **No function is defined inside another one.** -/
def SourceUnit.HasFlatFunctions (u : SourceUnit) : Prop :=
  ∀ f ∈ u.root.walk, f.kind = .functionDefinition → f.hasAncestor [.functionDefinition] = false

/-- Without a function below a block, the function around is that around the block. -/
theorem Node.functionAround?_of_ancestors_eq {inner : List Node} (hkind : n.kind ≠ .functionDefinition)
    (hblock : block.kind = .compoundStatement)
    (habove : n.ancestors = inner ++ block :: block.ancestors)
    (hnone : inner.find? (·.kind == .functionDefinition) = none) :
    n.functionAround? = block.ancestors.find? (·.kind == .functionDefinition) := by
  rw [functionAround?, if_neg hkind, habove, List.find?_append, hnone, Option.none_or,
    List.find?_cons_of_neg (by rw [hblock]; decide)]

/-- **Around a block with a function inside** there is no function. -/
theorem SourceUnit.HasFlatFunctions.find?_eq_none {f : Node} {inner : List Node}
    (hflat : u.HasFlatFunctions) (hu : u.root = .root t) (hn : n.PlaceOf t)
    (habove : n.ancestors = inner ++ block :: block.ancestors)
    (hfind : inner.find? (·.kind == .functionDefinition) = some f) :
    block.ancestors.find? (·.kind == .functionDefinition) = none := by
  have hf := List.mem_of_find?_eq_some hfind
  have hmem : f ∈ n.ancestors := by
    rw [habove]
    exact List.mem_append_left _ hf
  have hkind := List.find?_some (p := fun n : Node => n.kind == .functionDefinition) hfind
  have hnone := hflat f (hu ▸ (hn.of_mem_ancestors hmem).mem_walk) (beq_iff_eq.mp hkind)
  obtain ⟨front, rest, rfl⟩ := List.append_of_mem hf
  rw [List.append_assoc] at habove
  rw [Node.hasAncestor, Node.ancestors_of_ancestors_eq habove, List.any_eq_false] at hnone
  refine List.find?_eq_none.mpr fun a ha hkind => ?_
  refine hnone a (List.mem_append_right _ (List.mem_cons_of_mem block ha)) ?_
  rw [beq_iff_eq.mp hkind]
  decide

namespace Relocation

section DeclaredAround

variable (hret : Leaves u ret) (haround : DeclaredAround d ret)
  (hdecl : ∀ decl, d.node.parent? = some decl → decl.kind = .declaration)
include hret haround hdecl

/-- **Declared around a return** that is spelled in the file, an array is as well. -/
theorem isSpelledInFile_of_declaredAround : d.node.isSpelledInFile = true := by
  obtain ⟨decl, block, hparent, hup, -, hblock, -⟩ := haround
  have hspelled := hret.spelled
  rw [Node.isSpelledInFile, Bool.not_eq_true', Node.hasAncestor, List.any_eq_false] at hspelled ⊢
  intro a ha
  rw [Node.ancestors_of_parent? hparent, Node.ancestors_of_parent? hup, List.mem_cons,
    List.mem_cons] at ha
  rcases ha with rfl | rfl | ha
  · rw [hdecl a hparent]
    decide
  · exact hspelled a hblock
  · exact hspelled a (Node.mem_ancestors_trans ha hblock)

/-- **Declared around a return** outside `main`, an array is outside `main` as well. -/
theorem withinMain_of_declaredAround (hu : u.root = .root t) (hflat : u.HasFlatFunctions)
    (hkind : d.node.kind ∈ Declarator.declaringKinds) : u.withinMain d.node = false := by
  obtain ⟨decl, block, hparent, hup, hblockKind, hblock, -⟩ := haround
  have hnode : d.node.functionAround? =
      block.ancestors.find? (·.kind == .functionDefinition) := by
    have habove : d.node.ancestors = [decl] ++ block :: block.ancestors := by
      rw [Node.ancestors_of_parent? hparent, Node.ancestors_of_parent? hup]
      rfl
    refine Node.functionAround?_of_ancestors_eq (fun heq => absurd (heq ▸ hkind) (by decide))
      hblockKind habove ?_
    rw [List.find?_cons_of_neg (by rw [hdecl decl hparent]; decide)]
    rfl
  obtain ⟨inner, hinner⟩ := Node.exists_ancestors_eq hblock
  rw [SourceUnit.withinMain, Node.withinMain, hnode]
  cases hfind : inner.find? (·.kind == .functionDefinition) with
  | none =>
    -- the same function is around both
    have houtside := hret.outside
    rwa [SourceUnit.withinMain, Node.withinMain, Node.functionAround?_of_ancestors_eq
      (by rw [hret.kind]; decide) hblockKind hinner hfind] at houtside
  | some f =>
    -- the return is in a function inside the block, so no function is around the block
    rw [hflat.find?_eq_none hu (hret.placeOf hu) hinner hfind]
    rfl

end DeclaredAround

/-- **The arrays in scope of a return** are those that the pass has moved and that are declared
around it. -/
theorem mem_arraysInScope_iff_moved {lottery : Lottery} (hu : u.root = .root t)
    (ht : t.isLaidOut = true) (hflat : u.HasFlatFunctions) (hret : Leaves u ret) :
    d ∈ arraysInScope u lottery ret ↔
      (∃ decl, Renamed u d decl) ∧ isRelocated u lottery d.node d.type = true ∧
        DeclaredAround d ret := by
  rw [mem_arraysInScope_iff ht (hret.placeOf hu)]
  constructor
  · rintro ⟨haround, ⟨decl, hkind, hd, hplace⟩, heligible, hmoved⟩
    have hdecl : ∀ decl', d.node.parent? = some decl' → decl'.kind = .declaration := by
      intro decl' hdecl'
      obtain rfl := Option.some.inj (hdecl'.symm.trans (SourceUnit.declarator?_of_mem hd).1)
      exact hkind
    have hspelled := isSpelledInFile_of_declaredAround hret haround hdecl
    have houtside := withinMain_of_declaredAround hret haround hdecl hu hflat
      (Declarator.exists_of_mem_declarators hd).2
    exact ⟨⟨decl, hu ▸ hplace.mem_walk, hkind, hd, heligible, hspelled, houtside⟩, hmoved, haround⟩
  · rintro ⟨⟨decl, hd⟩, hmoved, haround⟩
    exact ⟨haround, ⟨decl, hd.kind, hd.declares, (hd.placeOf hu).1⟩, hd.eligible, hmoved⟩

/-! ## Moving and freeing agree -/

/-- **The calls before returns agree with the copies**: before each return outside `main`, and nowhere
else, the arrays are freed that were moved with a copy and are declared around the return, unless the
returned expression names them; each is freed once, in order. -/
structure Agree (u : SourceUnit) (works : List Work) : Prop where
  leaves : ∀ ret, (∃ calls, Work.free ret calls ∈ works) ↔ Leaves u ret
  freed_once : ∀ ret calls calls', Work.free ret calls ∈ works → Work.free ret calls' ∈ works →
    calls = calls'
  moved_once : ∀ d decl decl' number? number?', Work.move d decl number? ∈ works →
    Work.move d decl' number?' ∈ works → number? = number?'
  ordered : ∀ ret calls, Work.free ret calls ∈ works → (calls.map Prod.snd).Pairwise fun d e =>
    d.node.start ≤ e.node.start ∧ d.node ≠ e.node
  freed : ∀ ret calls, Work.free ret calls ∈ works → ∀ d, d ∈ calls.map Prod.snd ↔
    (∃ decl id, Work.move d decl (some id) ∈ works) ∧ DeclaredAround d ret ∧
      u.text d.name ∉ returnedNames u ret

/-- An array has a copy when it is renamed and relocated. -/
theorem Account.exists_copy_iff {config : RelocationConfig} {works : List Work}
    (h : Account config u works) : (∃ decl id, Work.move d decl (some id) ∈ works) ↔
      (∃ decl, Renamed u d decl) ∧ isRelocated u (.of config) d.node d.type = true := by
  constructor
  · rintro ⟨decl, id, hmove⟩
    obtain ⟨hd, hmoved⟩ := h.due _ hmove
    exact ⟨⟨decl, hd⟩, hmoved.symm⟩
  · rintro ⟨⟨decl, hd⟩, hmoved⟩
    exact ⟨decl, h.exists_copy hd hmoved⟩

/-- **Whatever the pass accounts for agrees**, in a laid out file with flat functions. -/
theorem Account.agree {config : RelocationConfig} {works : List Work} (h : Account config u works)
    (hfrees : config.freeOnReturn = true) (hu : u.root = .root t) (ht : t.isLaidOut = true)
    (hflat : u.HasFlatFunctions) : Agree u works := by
  refine ⟨fun ret => ⟨fun ⟨calls, hfree⟩ => (h.calls_eq hfree).1, h.frees hfrees ret⟩, ?_, ?_, ?_, ?_⟩
  · intro ret calls calls' hfree hfree'
    exact (Work.free.inj (h.eq_of_place hfree hfree' rfl)).2
  · intro d decl decl' number? number?' hmove hmove'
    exact (Work.move.inj (h.eq_of_place hmove hmove' rfl)).2.2
  · intro ret calls hfree
    rw [(h.calls_eq hfree).2]
    exact (pairwise_arraysInScope u (.of config) ret).filter _
  · intro ret calls hfree d
    obtain ⟨hret, hcalls⟩ := h.calls_eq hfree
    rw [hcalls, List.mem_filter, mem_arraysInScope_iff_moved hu ht hflat hret, h.exists_copy_iff,
      Bool.not_eq_true', List.contains_eq_mem, decide_eq_false_iff_not]
    constructor
    · rintro ⟨⟨hd, hmoved, haround⟩, hname⟩
      exact ⟨⟨hd, hmoved⟩, haround, hname⟩
    · rintro ⟨⟨hd, hmoved⟩, haround, hname⟩
      exact ⟨⟨hd, hmoved, haround⟩, hname⟩

end Relocation

end ProbeWeaver
