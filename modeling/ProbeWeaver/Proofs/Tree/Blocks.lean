import ProbeWeaver.Proofs.Tree.Controls

/-!
# Proofs/Tree/Blocks — a tree with blocks around some of its statements

`n.blocked wraps` is the tree below `n` with each marked place put into a block.  Every place of a
tree of this shape is an old place, the block around one, or a brace (`Node.Origin`).

* `Node.kind_of_controls_blocked` — where the controlled statements that are no blocks get one, all
  controlled statements are blocks.
-/

namespace ProbeWeaver

variable {t t' : Tree} {wraps : Node → Bool} {n m p c : Node} {f : Option Field} {label : Field}
  {i : Nat}

/-! ## Trees without their spans -/

namespace Tree

mutual

/-- **The tree with its spans forgotten.** -/
def shape : Tree → Tree
  | node k f _ m cs => node k f ⟨0, 0⟩ m (shapes cs)

/-- The trees with their spans forgotten. -/
def shapes : List Tree → List Tree
  | [] => []
  | t :: ts => t.shape :: shapes ts

end

theorem shapes_eq_map : ∀ ts : List Tree, shapes ts = ts.map shape
  | [] => rfl
  | t :: ts => by rw [shapes, shapes_eq_map ts, List.map_cons]

@[simp] theorem kind_shape : ∀ t : Tree, t.shape.kind = t.kind
  | node _ _ _ _ _ => by rw [shape]; rfl

@[simp] theorem field_shape : ∀ t : Tree, t.shape.field = t.field
  | node _ _ _ _ _ => by rw [shape]; rfl

@[simp] theorem missing_shape : ∀ t : Tree, t.shape.missing = t.missing
  | node _ _ _ _ _ => by rw [shape]; rfl

@[simp] theorem children_shape : ∀ t : Tree, t.shape.children = t.children.map shape
  | node _ _ _ _ cs => by rw [shape]; exact shapes_eq_map cs

/-- A brace. -/
def brace (spelling : String) : Tree := node (.token spelling) none ⟨0, 0⟩ false []

/-- A block around one statement. -/
def block (f : Option Field) (statement : Tree) : Tree :=
  node .compoundStatement f ⟨0, 0⟩ false [brace "\x7b", statement, brace "\x7d"]

end Tree

/-! ## Blocks around statements -/

namespace Node

mutual

/-- The shape of the tree at `here`, with the marked places in blocks. -/
def blockedTree (wraps : Node → Bool) (here : Node) : Tree → Tree
  | .node k f _ m cs =>
    if wraps here then .block f (.node k none ⟨0, 0⟩ m (blockedTrees wraps here 0 cs))
    else .node k f ⟨0, 0⟩ m (blockedTrees wraps here 0 cs)

/-- The shapes of the children of `above`, numbered from an index. -/
def blockedTrees (wraps : Node → Bool) (above : Node) : Nat → List Tree → List Tree
  | _, [] => []
  | i, t :: ts =>
    blockedTree wraps (.child above i t) t :: blockedTrees wraps above (i + 1) ts

end

/-- **The shape of the tree below a place with blocks**: each marked place stands alone in a block,
which fills its field. -/
def blocked (wraps : Node → Bool) (n : Node) : Tree := blockedTree wraps n n.tree

/-- The place itself, in a field, with blocks around marked places below it. -/
def inside (wraps : Node → Bool) (f : Option Field) (n : Node) : Tree :=
  .node n.kind f ⟨0, 0⟩ n.tree.missing (n.children.map (·.blocked wraps))

theorem blockedTrees_eq_map (above : Node) : ∀ (ts : List Tree) (i : Nat),
    blockedTrees wraps above i ts =
      (ts.mapIdx fun j t => Node.child above (i + j) t).map (·.blocked wraps)
  | [], _ => rfl
  | t :: ts, i => by
      have hindex (j : Nat) : i + 1 + j = i + (j + 1) := by omega
      rw [blockedTrees, blockedTrees_eq_map above ts, List.mapIdx_cons, List.map_cons]
      simp only [hindex]
      rfl

/-- **A marked place stands in a block**, and any other one as it was. -/
theorem blocked_eq (n : Node) : n.blocked wraps =
    if wraps n then .block n.tree.field (n.inside wraps none)
    else n.inside wraps n.tree.field := by
  have hchildren : blockedTrees wraps n 0 n.tree.children = n.children.map (·.blocked wraps) := by
    rw [blockedTrees_eq_map]
    simp only [Nat.zero_add]
    rfl
  rw [inside, inside, ← hchildren, blocked]
  unfold kind
  cases n.tree with
  | node k f s m cs => rw [blockedTree]; rfl

mutual

/-- Marks count at the places of the tree only. -/
theorem blockedTree_congr {wraps' : Node → Bool} (here : Node) : ∀ u : Tree,
    (∀ n ∈ walkTree here u, wraps n = wraps' n) →
      blockedTree wraps here u = blockedTree wraps' here u
  | .node k f s d cs, h => by
      rw [walkTree] at h
      obtain ⟨hhere, hbelow⟩ := List.forall_mem_cons.mp h
      rw [blockedTree, blockedTree, hhere, blockedTrees_congr here cs 0 hbelow]

theorem blockedTrees_congr {wraps' : Node → Bool} (above : Node) : ∀ (us : List Tree) (i : Nat),
    (∀ n ∈ walkTrees above i us, wraps n = wraps' n) →
      blockedTrees wraps above i us = blockedTrees wraps' above i us
  | [], _, _ => rfl
  | u :: us, i, h => by
      rw [walkTrees] at h
      obtain ⟨hfirst, hrest⟩ := List.forall_mem_append.mp h
      rw [blockedTrees, blockedTrees, blockedTree_congr _ u hfirst,
        blockedTrees_congr above us _ hrest]

end

@[simp] theorem field_blocked (n : Node) : (n.blocked wraps).field = n.tree.field := by
  rw [blocked_eq]
  split <;> rfl

theorem kind_blocked (n : Node) :
    (n.blocked wraps).kind = if wraps n then .compoundStatement else n.kind := by
  rw [blocked_eq]
  split <;> rfl

/-! ## Places of the new tree -/

theorem isSpelledInFile_child (p : Node) (i : Nat) (t : Tree) :
    (Node.child p i t).isSpelledInFile = (p.isSpelledInFile &&
      !([.preprocDef, .preprocFunctionDef, .preprocCall, .preprocArg] : List Kind).contains p.kind) := by
  rw [isSpelledInFile, hasAncestor, ancestors, List.any_cons, Bool.not_or, Bool.and_comm]
  rfl

/-- **Where a place of the new tree comes from**: it is an old place in some field, the block around
one, or a brace. -/
inductive Origin (wraps : Node → Bool) (t : Tree) (m : Node) : Prop where
  | kept (n : Node) (f : Option Field) (place : n.PlaceOf t)
      (shape : m.tree.shape = n.inside wraps f) (spelled : m.isSpelledInFile = n.isSpelledInFile)
  | block (n : Node) (place : n.PlaceOf t)
      (shape : m.tree.shape = .block n.tree.field (n.inside wraps none))
      (spelled : m.isSpelledInFile = n.isSpelledInFile)
  | brace (spelling : String) (shape : m.tree.shape = .brace spelling)

theorem Origin.of_blocked (hn : n.PlaceOf t) (hshape : m.tree.shape = n.blocked wraps)
    (hspelled : m.isSpelledInFile = n.isSpelledInFile) : Origin wraps t m := by
  rw [blocked_eq] at hshape
  split at hshape
  · exact .block n hn hshape hspelled
  · exact .kept n _ hn hshape hspelled

theorem kind_of_shape {s : Tree} (h : m.tree.shape = s) : m.kind = s.kind := by
  rw [← h, Tree.kind_shape]
  rfl

/-- **A child of such a place** is such a place. -/
theorem Origin.child {u : Tree} (h : Origin wraps t m) (hu : m.tree.children[i]? = some u) :
    Origin wraps t (.child m i u) := by
  have hchild : m.tree.shape.children[i]? = some u.shape := by
    rw [Tree.children_shape, List.getElem?_map, hu, Option.map_some]
  cases h with
  | kept n f hn hshape hspelled =>
    rw [hshape] at hchild
    obtain ⟨c, hc, hblocked⟩ := Option.map_eq_some_iff.mp (List.getElem?_map ▸ hchild)
    rw [children, List.getElem?_mapIdx] at hc
    obtain ⟨v, hv, rfl⟩ := Option.map_eq_some_iff.mp hc
    refine .of_blocked (n := .child n i v) ⟨hn, hv⟩ hblocked.symm ?_
    rw [isSpelledInFile_child, isSpelledInFile_child, hspelled, kind_of_shape hshape]
    rfl
  | block n hn hshape hspelled =>
    rw [hshape] at hchild
    have hkept : (Node.child m i u).isSpelledInFile = n.isSpelledInFile := by
      rw [isSpelledInFile_child, kind_of_shape hshape, hspelled]
      exact Bool.and_true _
    rcases List.mem_cons.mp (List.mem_of_getElem? hchild) with hbrace | hrest
    · exact .brace _ hbrace
    · rcases List.mem_cons.mp hrest with hinside | hlast
      · exact .kept n none hn hinside hkept
      · exact .brace _ (List.mem_singleton.mp hlast)
  | brace spelling hshape =>
    rw [hshape] at hchild
    exact absurd (List.mem_of_getElem? hchild) List.not_mem_nil

/-- **Every place of the new tree** has an origin. -/
theorem PlaceOf.origin (ht : t'.shape = (Node.root t).blocked wraps) :
    ∀ {m : Node}, m.PlaceOf t' → Origin wraps t m
  | .root u, h => by
      obtain rfl : u = t' := h
      exact .of_blocked (placeOf_root t) ht rfl
  | .child _ _ _, h => (PlaceOf.origin ht h.1).child h.2

/-! ## Tests that blocks do not change -/

/-- The shapes right below. -/
theorem map_shape_children (m : Node) : m.children.map (·.tree.shape) = m.tree.shape.children := by
  rw [Tree.children_shape]
  refine List.ext_getElem (by simp [children]) fun i _ _ => ?_
  simp only [List.getElem_map, children, List.getElem_mapIdx]
  rfl

/-- **The new place stands for the old one**: below it is what was below the old one, in blocks
where marked. -/
def StandsFor (wraps : Node → Bool) (m n : Node) : Prop :=
  m.tree.shape.children = n.children.map (·.blocked wraps)

/-- **A test that blocks do not change** finds children in the same place. -/
theorem StandsFor.exists_find? (test : Kind → Option Field → Bool) (hm : StandsFor wraps m n)
    (htest : ∀ c ∈ n.children, wraps c = true →
      test .compoundStatement c.tree.field = test c.kind c.tree.field)
    (h : m.children.find? (fun c => test c.kind c.tree.field) = some p) :
    ∃ c, n.children.find? (fun c => test c.kind c.tree.field) = some c ∧
      p.tree.shape = c.blocked wraps := by
  have hold : (m.tree.shape.children.find? fun t => test t.kind t.field) = some p.tree.shape := by
    rw [← map_shape_children, List.find?_map]
    simp only [Function.comp_def, Tree.kind_shape, Tree.field_shape]
    exact congrArg _ h
  have hnew : (n.children.map (·.blocked wraps)).find? (fun t => test t.kind t.field) =
      (n.children.find? fun c => test c.kind c.tree.field).map (·.blocked wraps) := by
    rw [List.find?_map, ← List.head?_filter, ← List.head?_filter]
    refine congrArg (Option.map _ ·.head?) (List.filter_congr fun c hc => ?_)
    rw [Function.comp_apply, field_blocked, kind_blocked]
    split
    · next hwraps => exact htest c hc hwraps
    · rfl
  rw [hm, hnew] at hold
  obtain ⟨c, hc, hshape⟩ := Option.map_eq_some_iff.mp hold
  exact ⟨c, hc, hshape.symm⟩

/-! ## Controlled statements of the new tree -/

/-- **The marks are right**: marked are the statements that constructs of the file control, but for
blocks. -/
def Marks (wraps : Node → Bool) (t : Tree) : Prop :=
  ∀ c : Node, c.PlaceOf t → (wraps c = true ↔ Unblocked t Controls c)

/-- A marked child is controlled by its construct, or stands first in an `else` clause. -/
theorem Marks.controls_or (hmarks : Marks wraps t) (hn : n.PlaceOf t) (hc : c ∈ n.children)
    (h : wraps c = true) :
    n.Controls c ∨ n.kind = .elseClause ∧ n.firstNamed? = some c := by
  obtain ⟨-, p, -, -, hcontrols⟩ := (hmarks c (hn.of_mem_children hc)).mp h
  rcases hcontrols.eq_or_firstNamed? (parent?_of_mem_children hc) with rfl | hclause
  · exact .inl hcontrols
  · exact .inr hclause

/-- A marked child of an `if`, a loop or a label is controlled by it. -/
theorem Marks.controls (hmarks : Marks wraps t) (hn : n.PlaceOf t) (hkind : n.kind ≠ .elseClause)
    (hc : c ∈ n.children) (h : wraps c = true) : n.Controls c :=
  (hmarks.controls_or hn hc h).resolve_right fun hclause => hkind hclause.1

/-- A marked alternative is what an `else` controls. -/
theorem Marks.alternative (hmarks : Marks wraps t) (hn : n.PlaceOf t)
    (hkind : n.kind = .ifStatement) (hc : c ∈ n.children)
    (hfield : c.tree.field = some .alternative) (h : wraps c = true) :
    n.namedFillers .alternative ≠ [] ∧ n.elseBranch? = some c := by
  cases hmarks.controls hn (by rw [hkind]; decide) hc h with
  | thenBranch _ first =>
    have hother := (List.mem_filter.mp (List.mem_filter.mp (List.mem_of_head? first)).1).2
    rw [hfield] at hother
    contradiction
  | elseBranch _ otherwise branch => exact ⟨otherwise, branch⟩
  | loopBody kind | labelled kind => rw [hkind] at kind; contradiction

section

variable (hmarks : Marks wraps t) (hn : n.PlaceOf t) (hm : StandsFor wraps m n)

include hmarks hn hm

/-- **The first construct that fills a field**, other than the alternative, stays the first. -/
theorem exists_head?_namedFillers (hkind : n.kind ≠ .elseClause) (hlabel : label ≠ .alternative)
    (h : (m.namedFillers label).head? = some p) :
    ∃ c, (n.namedFillers label).head? = some c ∧ p.tree.shape = c.blocked wraps := by
  simp only [head?_namedFillers_eq] at h ⊢
  refine hm.exists_find? (fun k f => k.isNamed && f == some label) (fun c hc hwraps => ?_) h
  cases hfield : c.tree.field == some label with
  | false => rw [Bool.and_false, Bool.and_false]
  | true =>
    have hnamed := ((hmarks.controls hn hkind hc hwraps).isNamed_or).resolve_right fun halt =>
      hlabel (Option.some.inj ((beq_iff_eq.mp hfield).symm.trans halt))
    rw [show c.kind.isNamed = true from hnamed]
    rfl

/-- An alternative of the new tree was there before. -/
theorem namedFillers_alternative_ne_nil (hkind : n.kind = .ifStatement)
    (h : m.namedFillers .alternative ≠ []) : n.namedFillers .alternative ≠ [] := by
  obtain ⟨p, hp⟩ := List.exists_mem_of_ne_nil _ h
  obtain ⟨hp, hnamed⟩ := List.mem_filter.mp hp
  obtain ⟨hp, hfield⟩ := List.mem_filter.mp hp
  obtain ⟨c, hc, hblocked⟩ : ∃ c ∈ n.children, c.blocked wraps = p.tree.shape :=
    List.mem_map.mp (hm ▸ map_shape_children m ▸ List.mem_map_of_mem hp)
  rw [← Tree.field_shape, ← hblocked, field_blocked] at hfield
  by_cases hwraps : wraps c = true
  · exact (hmarks.alternative hn hkind hc (beq_iff_eq.mp hfield) hwraps).1
  · rw [isNamed, kind_of_shape hblocked.symm, kind_blocked, if_neg hwraps] at hnamed
    exact List.ne_nil_of_mem (List.mem_filter.mpr ⟨List.mem_filter.mpr ⟨hc, hfield⟩, hnamed⟩)

/-- The first construct of an `else` clause of the new tree. -/
theorem exists_firstNamed? (hkind : n.kind = .elseClause) (h : m.firstNamed? = some p) :
    ∃ c, n.firstNamed? = some c ∧ p.tree.shape = c.blocked wraps := by
  simp only [firstNamed?_eq] at h ⊢
  refine hm.exists_find? (fun k _ => k.isNamed && k != .comment) (fun c hc hwraps => ?_) h
  rcases hmarks.controls_or hn hc hwraps with hcontrols | ⟨-, hfirst⟩
  · have hmem := hcontrols.kind_mem
    rw [hkind] at hmem
    contradiction
  · have htest := List.find?_some (firstNamed?_eq n ▸ hfirst)
    rw [htest]
    rfl

/-- **The statement of an `else`** of the new tree. -/
theorem exists_elseBranch? (hkind : n.kind = .ifStatement) (h : m.elseBranch? = some p) :
    ∃ c, n.elseBranch? = some c ∧ p.tree.shape = c.blocked wraps := by
  obtain ⟨b, hb, hbranch⟩ := elseBranch?_cases h
  obtain ⟨a, ha, hblocked⟩ :=
    hm.exists_find? (fun _ f => f == some .alternative) (fun _ _ _ => rfl) hb
  have hkinds := (kind_of_shape hblocked).trans (kind_blocked a)
  by_cases hwraps : wraps a = true
  · rw [if_pos hwraps] at hkinds
    rcases hbranch with ⟨hclause, -⟩ | ⟨-, rfl⟩
    · rw [hkinds] at hclause
      contradiction
    · have hfield := List.find?_some ha
      have hchild := List.mem_of_find?_eq_some ha
      exact ⟨a, (hmarks.alternative hn hkind hchild (beq_iff_eq.mp hfield) hwraps).2, hblocked⟩
  · rw [if_neg hwraps] at hkinds
    rw [elseBranch?_eq ha, ← hkinds]
    rcases hbranch with ⟨hclause, hfirst⟩ | ⟨hclause, rfl⟩
    · have hb : StandsFor wraps b a := by
        rw [StandsFor, hblocked, blocked_eq, if_neg hwraps]
        rfl
      rw [if_pos hclause]
      exact exists_firstNamed? hmarks (hn.of_field? ha) hb (hkinds ▸ hclause) hfirst
    · rw [if_neg hclause]
      exact ⟨a, rfl, hblocked⟩

/-- **The first statement behind a label** of the new tree. -/
theorem exists_labelled? (hkind : n.kind = .caseStatement) (h : m.labelled? = some p) :
    ∃ c, n.labelled? = some c ∧ p.tree.shape = c.blocked wraps := by
  simp only [labelled?_eq] at h ⊢
  refine hm.exists_find? (fun k f =>
    k.isNamed && k != .comment && (k.isStatement && f != some .value)) (fun c hc hwraps => ?_) h
  cases hmarks.controls hn (by rw [hkind]; decide) hc hwraps with
  | thenBranch kind | elseBranch kind | loopBody kind => rw [hkind] at kind; contradiction
  | labelled _ first =>
    rw [labelled?_eq] at first
    have htest := List.find?_some first
    have hfield := (Bool.and_eq_true_iff.mp (Bool.and_eq_true_iff.mp htest).2).2
    rw [htest, hfield]
    rfl

/-- **What a place controls in the new tree** stands for what it controlled before. -/
theorem Controls.exists_of_standsFor (hkind : m.kind = n.kind) (h : m.Controls p) :
    ∃ c, n.Controls c ∧ p.tree.shape = c.blocked wraps := by
  cases h with
  | thenBranch kind first =>
    rw [hkind] at kind
    obtain ⟨c, hc, hblocked⟩ :=
      exists_head?_namedFillers hmarks hn hm (by rw [kind]; decide) (by decide) first
    exact ⟨c, .thenBranch kind hc, hblocked⟩
  | elseBranch kind otherwise branch =>
    rw [hkind] at kind
    have hsome := namedFillers_alternative_ne_nil hmarks hn hm kind otherwise
    obtain ⟨c, hc, hblocked⟩ := exists_elseBranch? hmarks hn hm kind branch
    exact ⟨c, .elseBranch kind hsome hc, hblocked⟩
  | loopBody kind first =>
    rw [hkind] at kind
    have hclause : n.kind ≠ .elseClause := fun h => by rw [h] at kind; revert kind; decide
    obtain ⟨c, hc, hblocked⟩ := exists_head?_namedFillers hmarks hn hm hclause (by decide) first
    exact ⟨c, .loopBody kind hc, hblocked⟩
  | labelled kind first =>
    rw [hkind] at kind
    obtain ⟨c, hc, hblocked⟩ := exists_labelled? hmarks hn hm kind first
    exact ⟨c, .labelled kind hc, hblocked⟩

end

/-- **All controlled statements are blocks** in a tree where those that were none got one. -/
theorem kind_of_controls_blocked (hmarks : Marks wraps t)
    (ht : t'.shape = (Node.root t).blocked wraps) (hm : m.PlaceOf t')
    (hspelled : m.isSpelledInFile = true) (h : m.Controls p) : p.kind = .compoundStatement := by
  cases hm.origin ht with
  | kept n f hn hshape hsame =>
    have hstands : StandsFor wraps m n := by rw [StandsFor, hshape]; rfl
    have hkind : m.kind = n.kind := by rw [kind_of_shape hshape]; rfl
    obtain ⟨c, hc, hblocked⟩ := h.exists_of_standsFor hmarks hn hstands hkind
    rw [kind_of_shape hblocked, kind_blocked]
    split
    · rfl
    · next hwraps =>
      have hunmarked := mt (hmarks c (hc.placeOf hn)).mpr hwraps
      exact Decidable.byContradiction fun hkind =>
        hunmarked ⟨hkind, n, hn, hsame ▸ hspelled, hc⟩
  | block n hn hshape hsame =>
    have hkind := h.kind_mem
    rw [kind_of_shape hshape] at hkind
    contradiction
  | brace spelling hshape =>
    have hkind := h.kind_mem
    rw [kind_of_shape hshape] at hkind
    simp [Tree.brace, Tree.kind] at hkind

/-! ## No errors -/

/-- The place is no error of a parse. -/
def IsSound (n : Node) : Prop := n.tree.missing = false ∧ n.kind ≠ .error

mutual

theorem faultsInside_eq_nil_iff (here : Node) : ∀ u : Tree, here.tree = u →
    (u.faultsInside false = [] ↔ ∀ n ∈ walkTree here u, n.IsSound)
  | .node k f s d cs, hu => by
      have hsound : here.IsSound ↔ (Tree.node k f s d cs).isFault false = false := by
        rw [IsSound, kind, hu, Tree.isFault, Bool.or_eq_false_iff, Bool.false_and, Bool.not_false,
          Bool.and_true, beq_eq_false_iff_ne]
      rw [Tree.faultsInside, walkTree, List.append_eq_nil_iff, List.forall_mem_cons, hsound]
      cases hfault : (Tree.node k f s d cs).isFault false with
      | true => simp
      | false =>
        have hkind : (k == .error) = false := by
          have hother := (hsound.mpr hfault).2
          rw [kind, hu] at hother
          exact beq_eq_false_iff_ne.mpr hother
        rw [hkind, faultsInsideAll_eq_nil_iff here cs 0]
        simp

theorem faultsInsideAll_eq_nil_iff (above : Node) : ∀ (us : List Tree) (i : Nat),
    Tree.faultsInsideAll false us = [] ↔ ∀ n ∈ walkTrees above i us, n.IsSound
  | [], i => by simp [Tree.faultsInsideAll, walkTrees]
  | u :: us, i => by
      rw [Tree.faultsInsideAll, walkTrees, List.append_eq_nil_iff, List.forall_mem_append,
        faultsInside_eq_nil_iff (.child above i u) u rfl, faultsInsideAll_eq_nil_iff above us]

end

/-- **A parse has no errors** when none of its places is one. -/
theorem faults_eq_nil_iff : t.faults = [] ↔ ∀ n : Node, n.PlaceOf t → n.IsSound := by
  rw [Tree.faults, faultsInside_eq_nil_iff (.root t) t rfl]
  exact ⟨fun h n hn => h n hn.mem_walk, fun h n hn => h n ((placeOf_root t).of_mem_walk hn)⟩

/-- **Blocks bring no errors.** -/
theorem faults_blocked (ht : t'.shape = (Node.root t).blocked wraps) (h : t.faults = []) :
    t'.faults = [] := by
  rw [faults_eq_nil_iff] at h ⊢
  intro m hm
  cases hm.origin ht with
  | kept n f hn hshape _ =>
    obtain ⟨hmissing, hkind⟩ := h n hn
    rw [IsSound, ← Tree.missing_shape, kind_of_shape hshape, hshape]
    exact ⟨hmissing, hkind⟩
  | block n _ hshape _ =>
    rw [IsSound, ← Tree.missing_shape, kind_of_shape hshape, hshape]
    exact ⟨rfl, nofun⟩
  | brace spelling hshape =>
    rw [IsSound, ← Tree.missing_shape, kind_of_shape hshape, hshape]
    exact ⟨rfl, nofun⟩

end Node

end ProbeWeaver
