import ProbeWeaver.Proofs.Tree.Places

/-!
# Proofs/Tree/Controls — the statements that `if`, `else`, loops and labels control

`n.Controls c` says that `c` is what the `if` or its `else`, the loop or the label `n` stands for.
Such a statement stands right below its construct, or first in the clause of an `else`; it is the
first child that passes a test of kinds and fields.
-/

namespace ProbeWeaver

variable {t : Tree} {n p c : Node} {Fits Fits' : Node → Node → Prop}

/-! ## Controlled statements -/

namespace Node

/-- The first statement behind a label. -/
def labelled? (n : Node) : Option Node :=
  n.namedChildren.find? fun c => c.isStatement && !n.fillsField .value c

/-- **The construct controls the statement**: what an `if` does, what it does otherwise, what a loop
repeats, and where a label leads. -/
inductive Controls (n c : Node) : Prop where
  | thenBranch (kind : n.kind = .ifStatement) (first : (n.namedFillers .consequence).head? = some c)
  | elseBranch (kind : n.kind = .ifStatement) (otherwise : n.namedFillers .alternative ≠ [])
      (branch : n.elseBranch? = some c)
  | loopBody (kind : n.kind ∈ [Kind.forStatement, .whileStatement, .doStatement])
      (first : (n.namedFillers .body).head? = some c)
  | labelled (kind : n.kind = .caseStatement) (first : n.labelled? = some c)

theorem elseBranch?_eq (h : n.field? .alternative = some c) :
    n.elseBranch? = if c.kind = .elseClause then c.firstNamed? else some c := by
  rw [elseBranch?, h]
  rfl

/-- What an `else` controls is the alternative itself, or the first construct of its clause. -/
theorem elseBranch?_cases (h : n.elseBranch? = some c) : ∃ a, n.field? .alternative = some a ∧
    (a.kind = .elseClause ∧ a.firstNamed? = some c ∨ a.kind ≠ .elseClause ∧ c = a) := by
  obtain ⟨a, ha, -⟩ := Option.bind_eq_some_iff.mp h
  refine ⟨a, ha, ?_⟩
  rw [elseBranch?_eq ha] at h
  split at h
  · next hclause => exact .inl ⟨hclause, h⟩
  · next hclause => exact .inr ⟨hclause, (Option.some.inj h).symm⟩

/-- **A controlled statement** stands right below its construct, or first in the clause of an
`else`. -/
theorem Controls.eq_or_firstNamed? (h : n.Controls c) (hp : c.parent? = some p) :
    n = p ∨ p.kind = .elseClause ∧ p.firstNamed? = some c := by
  have hchild (hc : c ∈ n.children) : n = p :=
    Option.some.inj ((parent?_of_mem_children hc).symm.trans hp)
  cases h with
  | thenBranch _ hc | loopBody _ hc =>
    exact .inl (hchild (List.mem_filter.mp (List.mem_filter.mp (List.mem_of_head? hc)).1).1)
  | elseBranch _ _ hc =>
    obtain ⟨a, ha, ⟨hclause, hc⟩ | ⟨-, rfl⟩⟩ := elseBranch?_cases hc
    · have hmem := (List.mem_filter.mp (List.mem_of_head? hc)).1
      obtain rfl : a = p := Option.some.inj ((parent?_of_mem_children hmem).symm.trans hp)
      exact .inr ⟨hclause, hc⟩
    · exact .inl (hchild (List.mem_of_find?_eq_some ha))
  | labelled _ hc =>
    exact .inl (hchild (List.mem_filter.mp (List.mem_of_find?_eq_some hc)).1)

theorem Controls.placeOf (h : n.Controls c) (hn : n.PlaceOf t) : c.PlaceOf t := by
  cases h with
  | thenBranch _ hc | loopBody _ hc =>
    exact hn.of_mem_fillers (List.mem_filter.mp (List.mem_of_head? hc)).1
  | elseBranch _ _ hc =>
    obtain ⟨a, ha, ⟨-, hc⟩ | ⟨-, rfl⟩⟩ := elseBranch?_cases hc
    · exact (hn.of_field? ha).of_firstNamed? hc
    · exact hn.of_field? ha
  | labelled _ hc => exact hn.of_mem_namedChildren (List.mem_of_find?_eq_some hc)

/-- A controlled statement is a construct, or fills the field of the alternative. -/
theorem Controls.isNamed_or (h : n.Controls c) :
    c.isNamed = true ∨ c.tree.field = some .alternative := by
  cases h with
  | thenBranch _ hc | loopBody _ hc => exact .inl (List.mem_filter.mp (List.mem_of_head? hc)).2
  | elseBranch _ _ hc =>
    obtain ⟨a, ha, ⟨-, hc⟩ | ⟨-, rfl⟩⟩ := elseBranch?_cases hc
    · exact .inl (Bool.and_eq_true_iff.mp (List.mem_filter.mp (List.mem_of_head? hc)).2).1
    · have hfield := List.find?_some ha
      exact .inr (beq_iff_eq.mp hfield)
  | labelled _ hc =>
    have hmem := (List.mem_filter.mp (List.mem_of_find?_eq_some hc)).2
    exact .inl (Bool.and_eq_true_iff.mp hmem).1

/-- Constructs of other kinds control nothing. -/
theorem Controls.kind_mem (h : n.Controls c) : n.kind ∈ [Kind.ifStatement, .forStatement,
    .whileStatement, .doStatement, .caseStatement] := by
  cases h with
  | thenBranch hkind | elseBranch hkind | labelled hkind => rw [hkind]; decide
  | loopBody hkind => exact List.mem_cons_of_mem _ (List.mem_append_left [_] hkind)

/-- **A statement without a block**: a construct of the file stands to it in the relation, and it is
no block. -/
def Unblocked (t : Tree) (Fits : Node → Node → Prop) (c : Node) : Prop :=
  c.kind ≠ .compoundStatement ∧ ∃ n : Node, n.PlaceOf t ∧ n.isSpelledInFile = true ∧ Fits n c

theorem unblocked_congr (h : ∀ n : Node, Fits n c ↔ Fits' n c) :
    Unblocked t Fits c ↔ Unblocked t Fits' c := by
  simp only [Unblocked, h]

theorem unblocked_or : Unblocked t (fun n c => Fits n c ∨ Fits' n c) c ↔
    Unblocked t Fits c ∨ Unblocked t Fits' c := by
  simp only [Unblocked, and_or_left, exists_or]

/-! ## The first child that passes a test -/

/-- The first construct that fills a field. -/
theorem head?_namedFillers_eq (n : Node) (f : Field) : (n.namedFillers f).head? =
    n.children.find? fun c => c.kind.isNamed && c.tree.field == some f := by
  rw [namedFillers, fillers, List.filter_filter, List.head?_filter]
  rfl

/-- The first construct. -/
theorem firstNamed?_eq (n : Node) : n.firstNamed? =
    n.children.find? fun c => c.kind.isNamed && c.kind != .comment := List.head?_filter

theorem fillsField_of_mem_children (hc : c ∈ n.children) (f : Field) :
    n.fillsField f c = (c.tree.field == some f) := by
  rw [fillsField, Bool.eq_iff_iff, List.any_eq_true]
  constructor
  · rintro ⟨d, hd, hsame⟩
    obtain ⟨hd, hfield⟩ := List.mem_filter.mp hd
    rwa [← eq_of_mem_children hd hc hsame]
  · exact fun hfield => ⟨c, List.mem_filter.mpr ⟨hc, hfield⟩, beq_self_eq_true c.path⟩

/-- The first statement behind a label. -/
theorem labelled?_eq (n : Node) : n.labelled? = n.children.find? fun c => c.kind.isNamed &&
    c.kind != .comment && (c.kind.isStatement && c.tree.field != some .value) := by
  rw [labelled?, namedChildren, List.find?_filter, ← List.head?_filter, ← List.head?_filter]
  refine congrArg List.head? (List.filter_congr fun c hc => ?_)
  rw [fillsField_of_mem_children hc, Bool.decide_and, Bool.decide_eq_true, Bool.decide_eq_true]
  rfl

end Node

end ProbeWeaver
