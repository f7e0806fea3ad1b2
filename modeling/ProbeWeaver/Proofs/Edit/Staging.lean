import ProbeWeaver.Proofs.Edit.Accumulation

/-!
# Proofs/Edit/Staging — a plan is good until the set changes

A plan is kept on the desk while other actions go on, and may be committed any number of times.  The
revision of the set counts the accepted additions and commits (`revision_after`), and a plan carries
the revision it was made for, so a commit is accepted exactly when the set is still the one that was
planned for.

* `Desk.commit_eq_add` — what becomes of a refused action, when a commit is accepted, and what an
  accepted one does.
-/

namespace ProbeWeaver

open Edit

variable {source : String} {e : Edit} {set set' : EditSet} {step : Plan}

/-! ## Revisions -/

theorem EditSet.foldInto_revision {start : Nat} (h : set.foldInto source start e = .ok step) :
    step.revision = set.revision := by
  obtain ⟨region, -, h⟩ := bind_eq_ok_iff.mp h
  dsimp only at h
  split at h
  · obtain rfl := Except.ok.inj h
    rfl
  · contradiction

/-- **A plan is for the set as it stands.** -/
theorem EditSet.plan_revision (h : set.plan source e = .ok step) :
    step.revision = set.revision := by
  obtain ⟨-, -, h⟩ := bind_eq_ok_iff.mp h
  split at h
  · dsimp only at h
    split at h
    · exact foldInto_revision h
    · contradiction
  · obtain rfl := Except.ok.inj h
    rfl

/-- Only plans for the present revision are carried out, and they end it. -/
theorem EditSet.revision_of_carryOut (h : set.carryOut step = .ok set') :
    step.revision = set.revision ∧ set'.revision = set.revision + 1 := by
  rw [carryOut] at h
  split at h
  · next hrevision =>
    obtain rfl := Except.ok.inj h
    exact ⟨hrevision, rfl⟩
  · contradiction

theorem EditSet.carryOut_of_ne (h : step.revision ≠ set.revision) :
    set.carryOut step = .error .stalePlan := by
  rw [carryOut, if_neg h]

/-- **Adding is planning and carrying out.** -/
theorem EditSet.add_of_plan (h : set.plan source e = .ok step) :
    set.add source e = set.carryOut step := by
  rw [add, h]
  rfl

namespace Desk

variable {desk : Desk} {action : Action} {actions : List Action} {conflict : Conflict}
  {index : Nat}

/-! ## Answers -/

/-- The conflict that a refused step answers with. -/
def refusal? {α : Type} : Except Conflict α → Option Conflict
  | .ok _ => none
  | .error conflict => some conflict

/-- **The conflict that an action answers with**, when it is refused. -/
def conflict? (source : String) (desk : Desk) : Action → Option Conflict
  | .add e => refusal? (desk.set.add source e)
  | .plan e => refusal? (desk.set.plan source e)
  | .commit index => desk.plans[index]?.bind fun step => refusal? (desk.set.carryOut step)

/-- **What the action makes of the set**, when it is an addition or a commit and is accepted. -/
def change? (source : String) (desk : Desk) : Action → Option EditSet
  | .add e => (desk.set.add source e).toOption
  | .plan _ => none
  | .commit index => desk.plans[index]?.bind fun step => (desk.set.carryOut step).toOption

/-- The desk after actions. -/
def after (source : String) (desk : Desk) (actions : List Action) : Desk :=
  actions.foldl (next source) desk

/-- **The number of accepted additions and commits** among actions. -/
def changes (source : String) : Desk → List Action → Nat
  | _, [] => 0
  | desk, action :: actions =>
    (if (desk.change? source action).isSome then 1 else 0) +
      changes source (desk.next source action) actions

/-- **A refused action** leaves everything as it was. -/
theorem next_of_conflict (h : desk.conflict? source action = some conflict) :
    desk.next source action = desk := by
  cases action with
  | add e =>
    rw [next]
    cases hadd : desk.set.add source e with
    | ok set => rw [conflict?, hadd] at h; contradiction
    | error cause => rfl
  | plan e =>
    rw [next]
    cases hplan : desk.set.plan source e with
    | ok step => rw [conflict?, hplan] at h; contradiction
    | error cause => rfl
  | commit index =>
    rw [next]
    cases hindex : desk.plans[index]? with
    | none => rfl
    | some step =>
      dsimp only
      cases hcarry : desk.set.carryOut step with
      | ok set =>
        rw [conflict?, hindex, Option.bind_some, hcarry] at h
        contradiction
      | error cause => rfl

/-- **The set after an action** is what the action makes of it. -/
theorem set_next (source : String) (desk : Desk) (action : Action) :
    (desk.next source action).set = (desk.change? source action).getD desk.set := by
  cases action with
  | add e =>
    rw [next, change?]
    cases desk.set.add source e <;> rfl
  | plan e =>
    rw [next, change?]
    cases desk.set.plan source e <;> rfl
  | commit index =>
    rw [next, change?]
    cases desk.plans[index]? with
    | none => rfl
    | some step =>
      rw [Option.bind_some]
      dsimp only
      cases desk.set.carryOut step <;> rfl

/-- Plans stay on the desk. -/
theorem plans_next (source : String) (desk : Desk) (action : Action) :
    desk.plans <+: (desk.next source action).plans := by
  cases action with
  | add e =>
    rw [next]
    split <;> exact List.prefix_refl _
  | plan e =>
    rw [next]
    split
    · exact List.prefix_append _ _
    · exact List.prefix_refl _
  | commit index =>
    rw [next]
    split
    · split <;> exact List.prefix_refl _
    · exact List.prefix_refl _

/-- An accepted addition or commit makes one revision. -/
theorem revision_of_change (h : desk.change? source action = some set) :
    set.revision = desk.set.revision + 1 := by
  cases action with
  | add e =>
    obtain ⟨step, -, hcarry⟩ := bind_eq_ok_iff.mp (eq_ok_of_toOption h)
    exact (EditSet.revision_of_carryOut hcarry).2
  | plan e => contradiction
  | commit index =>
    obtain ⟨step, -, hcarry⟩ := Option.bind_eq_some_iff.mp h
    exact (EditSet.revision_of_carryOut (eq_ok_of_toOption hcarry)).2

/-! ## Actions in a row -/

theorem after_cons (source : String) (desk : Desk) (action : Action) (actions : List Action) :
    desk.after source (action :: actions) = (desk.next source action).after source actions := rfl

theorem plans_after (source : String) : ∀ (actions : List Action) (desk : Desk),
    desk.plans <+: (desk.after source actions).plans
  | [], desk => List.prefix_refl desk.plans
  | action :: actions, desk =>
      (plans_next source desk action).trans (plans_after source actions (desk.next source action))

/-- **The revision counts** the accepted additions and commits. -/
theorem revision_after (source : String) : ∀ (actions : List Action) (desk : Desk),
    (desk.after source actions).set.revision = desk.set.revision + changes source desk actions
  | [], _ => rfl
  | action :: actions, desk => by
      rw [after_cons, revision_after source actions, changes, set_next]
      cases hchange : desk.change? source action with
      | none => rw [Option.getD_none, Option.isSome_none, if_neg Bool.false_ne_true]; omega
      | some set =>
        rw [Option.getD_some, Option.isSome_some, if_pos rfl, revision_of_change hchange]
        omega

/-- Without an accepted addition or commit the set is the same. -/
theorem set_after_of_changes_eq_zero : ∀ {actions : List Action} {desk : Desk},
    changes source desk actions = 0 → (desk.after source actions).set = desk.set
  | [], _, _ => rfl
  | action :: actions, desk, h => by
      rw [changes] at h
      cases hchange : desk.change? source action with
      | none =>
        rw [hchange, Option.isSome_none, if_neg Bool.false_ne_true, Nat.zero_add] at h
        rw [after_cons, set_after_of_changes_eq_zero h, set_next, hchange, Option.getD_none]
      | some set =>
        rw [hchange, Option.isSome_some, if_pos rfl] at h
        omega

/-! ## Plans and their commits -/

/-- The desk after an accepted plan holds it behind the others. -/
theorem plans_next_plan (h : desk.set.plan source e = .ok step) :
    desk.next source (.plan e) = { desk with plans := desk.plans ++ [step] } := by
  rw [next, h]

/-- **An accepted plan** keeps its place among the plans. -/
theorem getElem?_plans_after (h : desk.set.plan source e = .ok step) (actions : List Action) :
    (desk.after source (.plan e :: actions)).plans[desk.plans.length]? = some step := by
  obtain ⟨later, hlater⟩ := plans_after source actions (desk.next source (.plan e))
  rw [after_cons, ← hlater, plans_next_plan h, List.append_assoc,
    List.getElem?_append_right (Nat.le_refl _), Nat.sub_self]
  rfl

/-- A commit of a plan that is at hand answers as the set does. -/
theorem conflict?_commit (h : desk.plans[index]? = some step) :
    desk.conflict? source (.commit index) = refusal? (desk.set.carryOut step) := by
  rw [conflict?, h, Option.bind_some]

theorem next_commit (h : desk.plans[index]? = some step)
    (hcarry : desk.set.carryOut step = .ok set) :
    desk.next source (.commit index) = { desk with set } := by
  rw [next, h]
  dsimp only
  rw [hcarry]

theorem next_add (h : desk.set.add source e = .ok set) :
    desk.next source (.add e) = { desk with set } := by
  rw [next, h]

/-- **A commit of an older plan** is accepted for the set that was planned for, and is an addition
to it. -/
theorem next_commit_eq_next_add (hplan : desk.set.plan source e = .ok step)
    (hindex : desk.plans[index]? = some step) :
    desk.conflict? source (.commit index) = none ∧
      desk.next source (.commit index) = desk.next source (.add e) ∧
        (desk.next source (.commit index)).set.revision = desk.set.revision + 1 := by
  have hcarry := carryOut_of_revision_eq (EditSet.plan_revision hplan)
  have hadd := (EditSet.add_of_plan hplan).trans hcarry
  refine ⟨?_, ?_, ?_⟩
  · rw [conflict?_commit hindex, hcarry]
    rfl
  · rw [next_commit hindex hcarry, next_add hadd]
  · rw [next_commit hindex hcarry]

/-- **Planning and committing make one addition.**  Whatever the desk and the actions on it: an
action that answers with a conflict leaves the entries, the revision and the plans as they were.  A
plan that is handed out stays at hand, and its commit answers with no conflict as long as no addition
and no commit has been accepted since, and from then on with that of a stale plan.  A commit that is
accepted makes a new revision, and leaves what adding the planned edit in its place would have
left. -/
theorem commit_eq_add (source : String) {desk now : Desk} (between : List Action)
    (hplan : desk.set.plan source e = .ok step)
    (hnow : desk.after source (.plan e :: between) = now) :
    (∀ (desk : Desk) action conflict, desk.conflict? source action = some conflict →
      desk.next source action = desk) ∧
    now.plans[desk.plans.length]? = some step ∧
    now.conflict? source (.commit desk.plans.length) =
      (if changes source desk (.plan e :: between) = 0 then none else some .stalePlan) ∧
    (now.conflict? source (.commit desk.plans.length) = none →
      now.next source (.commit desk.plans.length) = now.next source (.add e) ∧
        (now.next source (.commit desk.plans.length)).set.revision = now.set.revision + 1) := by
  subst hnow
  have hindex := getElem?_plans_after hplan between
  have hrevision := revision_after source (.plan e :: between) desk
  have hplanned := EditSet.plan_revision hplan
  refine ⟨fun _ _ _ => next_of_conflict, hindex, ?_, fun hnone => ?_⟩
  · split
    · next hkept =>
      rw [← set_after_of_changes_eq_zero hkept] at hplan
      exact (next_commit_eq_next_add hplan hindex).1
    · next hchanged =>
      rw [conflict?_commit hindex, EditSet.carryOut_of_ne (by omega)]
      rfl
  · have hkept : changes source desk (.plan e :: between) = 0 := by
      by_contra hchanged
      rw [conflict?_commit hindex, EditSet.carryOut_of_ne (by omega)] at hnone
      contradiction
    rw [← set_after_of_changes_eq_zero hkept] at hplan
    exact (next_commit_eq_next_add hplan hindex).2

/-- Two plans for one set, of which the second is committed: the first one is stale from then on. -/
theorem commit_of_two_plans :
    changes "abc" {} [.plan (.insertion 1 "x"), .plan (.insertion 2 "y"), .commit 1] = 1 ∧
      (after "abc" {} [.plan (.insertion 1 "x"), .plan (.insertion 2 "y"), .commit 1]).conflict?
        "abc" (.commit 0) = some .stalePlan := by
  have hchanges :
      changes "abc" {} [.plan (.insertion 1 "x"), .plan (.insertion 2 "y"), .commit 1] = 1 := by
    decide +kernel
  refine ⟨hchanges, ?_⟩
  have hplan : ({} : Desk).set.plan "abc" (.insertion 1 "x") =
      .ok (.direct 0 (.insertion 1 "x") 0) := rfl
  have hcommit :=
    (commit_eq_add "abc" [.plan (.insertion 2 "y"), .commit 1] hplan rfl).2.2.1
  rw [hchanges] at hcommit
  exact hcommit

end Desk

end ProbeWeaver
