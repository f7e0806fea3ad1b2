import ProbeWeaver.Proofs.Tree.Places

/-!
# Proofs/Tree/Slots — when the slot above is a governed block

A block that serves as a body is a slot, so the climb of `slotAround?` may end at it.  It does so
exactly for what *hangs loose* in the block (`HangsLoose`): a member of the block that is no
statement, such as a group under `#ifdef` or a type definition, holds it, and no slot stands
between.

* `slotAround?_isGoverned_iff` — the slot is a governed block iff the construct hangs loose in it.
-/

namespace ProbeWeaver.Node

variable {t : Tree} {n b c p : Node} {f : Field}

/-! ## Governed blocks -/

/-- **A governed block**: the block that an `if`, an `else` or a loop has for its body. -/
def isGoverned (n : Node) : Bool := n.kind == .compoundStatement && n.isBody

/-- What a body stands in. -/
theorem isBody_parent? (h : n.isBody = true) : ∃ p, n.parent? = some p ∧
    p.kind ∈ [Kind.ifStatement, .elseClause, .forStatement, .whileStatement, .doStatement] := by
  rw [isBody] at h
  split at h
  · contradiction
  · next p hp =>
    refine ⟨p, hp, ?_⟩
    split at h
    all_goals
      first
      | contradiction
      | next hkind => rw [hkind]; decide

/-- A construct of another kind is no governed block. -/
theorem not_isGoverned_of_kind (h : n.kind ≠ .compoundStatement) : n.isGoverned = false := by
  rw [isGoverned, beq_false_of_ne h, Bool.false_and]

/-- A construct below anything but an `if`, an `else` or a loop is no governed block. -/
theorem not_isGoverned_of_parent? (hp : n.parent? = some p)
    (h : p.kind ∉ [Kind.ifStatement, .elseClause, .forStatement, .whileStatement, .doStatement]) :
    n.isGoverned = false := by
  rw [isGoverned, Bool.and_eq_false_iff]
  refine .inr (Bool.eq_false_iff.mpr fun hbody => ?_)
  obtain ⟨q, hq, hkind⟩ := isBody_parent? hbody
  obtain rfl := Option.some.inj (hp.symm.trans hq)
  exact h hkind

/-- **A governed block is a slot.** -/
theorem isSlot_of_isGoverned (h : n.isGoverned = true) : n.isSlot = true := by
  obtain ⟨hkind, hbody⟩ := Bool.and_eq_true_iff.mp h
  have hstatement : n.isStatement = true := by
    rw [isStatement, beq_iff_eq.mp hkind]
    rfl
  obtain ⟨p, hp, hheader⟩ := isBody_parent? hbody
  rw [isSlot, hstatement, hp, Bool.true_and]
  simp only [List.mem_cons, List.not_mem_nil, or_false] at hheader
  dsimp only
  rcases hheader with h | h | h | h | h <;> rw [h] <;> exact hbody

/-- A member of a block that is a statement is a slot. -/
theorem isSlot_of_mem_block (hp : c.parent? = some b) (hb : b.isGoverned = true)
    (hc : c.isStatement = true) : c.isSlot = true := by
  rw [isSlot, hc, hp]
  dsimp only
  rw [beq_iff_eq.mp (Bool.and_eq_true_iff.mp hb).1]
  rfl

/-! ## The slot above -/

/-- The climb goes on from what is no slot. -/
theorem slotAround?_of_parent? (hp : n.parent? = some p) :
    n.slotAround? = if p.isSlot then some p else p.slotAround? := by
  cases n with
  | root u => exact nomatch hp
  | child q i u =>
    obtain rfl := Option.some.inj hp
    rw [slotAround?, ancestors, List.find?_cons]
    cases q.isSlot <;> rfl

/-- **A construct hangs loose in a governed block**: it stands right in the block, or below what is
no slot and hangs loose there. -/
inductive HangsLoose (b : Node) : Node → Prop where
  | inside {n : Node} (parent : n.parent? = some b) (governed : b.isGoverned = true) :
      HangsLoose b n
  | under {n p : Node} (parent : n.parent? = some p) (noSlot : p.isSlot = false)
      (above : HangsLoose b p) : HangsLoose b n

theorem HangsLoose.isGoverned (h : HangsLoose b n) : b.isGoverned = true := by
  induction h with
  | inside _ hb => exact hb
  | under _ _ _ ih => exact ih

/-- **The slot above is a governed block** exactly when the construct hangs loose in it. -/
theorem slotAround?_isGoverned_iff :
    ∀ {n : Node}, (n.slotAround? = some b ∧ b.isGoverned = true) ↔ HangsLoose b n
  | .root u => ⟨fun h => absurd h.1 nofun, fun h => by cases h <;> contradiction⟩
  | .child p i u => by
      rw [slotAround?_of_parent? (p := p) rfl]
      refine ⟨fun ⟨hslot, hb⟩ => ?_, fun h => ⟨?_, h.isGoverned⟩⟩
      · split at hslot
        · obtain rfl := Option.some.inj hslot
          exact .inside rfl hb
        · next hp =>
          exact .under rfl (Bool.eq_false_iff.mpr hp) (slotAround?_isGoverned_iff.mp ⟨hslot, hb⟩)
      · cases h with
        | inside hp hb =>
          obtain rfl := Option.some.inj hp
          rw [if_pos (isSlot_of_isGoverned hb)]
        | under hp hnone h =>
          obtain rfl := Option.some.inj hp
          rw [if_neg (Bool.eq_false_iff.mp hnone)]
          exact (slotAround?_isGoverned_iff.mpr h).1

/-- **What hangs loose without standing right in the block** is held by a member of the block that
is no statement. -/
theorem HangsLoose.exists_member (h : HangsLoose b n) : n.parent? = some b ∨
    ∃ c ∈ n.ancestors, c.parent? = some b ∧ c.isStatement = false := by
  induction h with
  | inside hp _ => exact .inl hp
  | @under n p hp hnone habove ih =>
    obtain ⟨i, u, rfl⟩ : ∃ i u, n = .child p i u := by
      cases n with
      | root u => exact nomatch hp
      | child q i u => exact ⟨i, u, by rw [Option.some.inj hp]⟩
    rcases ih with hpb | ⟨c, hc, hcb⟩
    · refine .inr ⟨p, List.mem_cons_self, hpb, Bool.eq_false_iff.mpr fun hstatement => ?_⟩
      rw [isSlot_of_mem_block hpb habove.isGoverned hstatement] at hnone
      contradiction
    · exact .inr ⟨c, List.mem_cons_of_mem p hc, hcb⟩

end ProbeWeaver.Node
