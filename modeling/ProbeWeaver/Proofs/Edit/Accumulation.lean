import ProbeWeaver.Proofs.Edit.Merging

/-!
# Proofs/Edit/Accumulation — a set of edits is the text it gives

However a set came about, its entries fit the text, so it can be carried out; and whatever a plan
does to the entries, it does to the edited text what the edit says.

* `Reachable.exists_rewrite` — carrying out a plan replaces the planned bytes of the edited text and
  leaves every other byte as it was.
* `Desk.run_sound` — over any run of additions, plans and commits, some of them refused, the entries
  stay in order, apart and on boundaries, and the edited text has the size they announce.
-/

namespace ProbeWeaver

open Text Edit

variable {source : String} {e : Edit} {set set' : EditSet} {step : Plan}

/-! ## Sets built by adding -/

/-- **A set built from nothing** by additions that were accepted. -/
inductive EditSet.Reachable (source : String) : EditSet → Prop
  | empty : Reachable source {}
  | add {set set' : EditSet} {e : Edit} (h : Reachable source set)
      (hadd : set.add source e = .ok set') : Reachable source set'

/-- A plan for the set as it stands is carried out. -/
theorem carryOut_of_revision_eq (h : step.revision = set.revision) :
    set.carryOut step = .ok ⟨set.entriesAfter step, set.revision + 1⟩ := by
  rw [EditSet.carryOut, if_pos h]

/-- **An accepted addition** keeps the entries fit for the text. -/
theorem add_fits (h : Fits source set.entries) (hadd : set.add source e = .ok set') :
    Fits source set'.entries ∧ set'.revision = set.revision + 1 := by
  obtain ⟨step, hplan, hcarry⟩ := bind_eq_ok_iff.mp hadd
  have hstep := plan_eq_ok h hplan
  rw [carryOut_of_revision_eq hstep.revision_eq] at hcarry
  obtain rfl := Except.ok.inj hcarry
  exact ⟨hstep.fits, rfl⟩

theorem EditSet.Reachable.fits (h : set.Reachable source) : Fits source set.entries := by
  induction h with
  | empty => exact fits_nil source
  | add _ hadd ih => exact (add_fits ih hadd).1

/-- **A plan edits the edited text.**  Once carried out it has replaced exactly the edit's number of
bytes, from where the edit's offset stands in the edited text, by the edit's text. -/
theorem EditSet.Reachable.exists_rewrite (h : set.Reachable source)
    (hplan : set.plan source e = .ok step) :
    ∃ (set' : EditSet) (a b c : String), set.carryOut step = .ok set' ∧
      set.apply source = .ok (a ++ b ++ c) ∧ set'.apply source = .ok (a ++ e.text ++ c) ∧
      a.utf8ByteSize = set.editedOffset e.offset ∧ b.utf8ByteSize = e.length := by
  have hstep := plan_eq_ok h.fits hplan
  obtain ⟨a, b, c, hold, hnew, ha, hb⟩ := hstep.rewrites
  refine ⟨_, a, b, c, carryOut_of_revision_eq hstep.revision_eq, ?_, ?_, ha, hb⟩
  · rw [EditSet.apply, applyAll_eq_ok h.fits, hold]
  · rw [EditSet.apply, applyAll_eq_ok hstep.fits, hnew]

/-- A replacement inside the new text of another one: both merge into one entry. -/
theorem exists_rewrite_merged :
    ∃ (set' : EditSet) (a b c : String),
      EditSet.carryOut ⟨[⟨1, 3, "xyzw"⟩], 1⟩ (.merged 0 1 ⟨1, 3, "xQzw"⟩ 1) = .ok set' ∧
      EditSet.apply ⟨[⟨1, 3, "xyzw"⟩], 1⟩ "abcdef" = .ok (a ++ b ++ c) ∧
      set'.apply "abcdef" = .ok (a ++ "Q" ++ c) ∧
      a.utf8ByteSize = EditSet.editedOffset ⟨[⟨1, 3, "xyzw"⟩], 1⟩ 2 ∧ b.utf8ByteSize = 1 :=
  EditSet.Reachable.exists_rewrite (.add .empty (e := ⟨1, 3, "xyzw"⟩) rfl) (e := ⟨2, 1, "Q"⟩) rfl

/-! ## Runs of additions, plans and commits -/

/-- **A set in use**: the edits accepted so far, and the plans handed out for it.  A plan stays on
the desk after its commit, so it may be committed again. -/
structure Desk where
  set : EditSet := {}
  plans : List Plan := []

/-- What a user of the set can do. -/
inductive Desk.Action where
  | add (e : Edit)
  | plan (e : Edit)
  | commit (index : Nat)

namespace Desk

variable {desk : Desk}

/-- **One action.**  A refused one changes nothing. -/
def next (source : String) (desk : Desk) : Action → Desk
  | .add e =>
    match desk.set.add source e with
    | .ok set => { desk with set }
    | .error _ => desk
  | .plan e =>
    match desk.set.plan source e with
    | .ok step => { desk with plans := desk.plans ++ [step] }
    | .error _ => desk
  | .commit index =>
    match desk.plans[index]? with
    | some step =>
      match desk.set.carryOut step with
      | .ok set => { desk with set }
      | .error _ => desk
    | none => desk

/-- The desk after a sequence of actions that starts with an empty set. -/
def run (source : String) (actions : List Action) : Desk := actions.foldl (next source) {}

/-- **The invariant**: the entries fit the text, and no plan is of a later state; a plan of the
present state leads to entries that fit the text. -/
structure Sound (source : String) (desk : Desk) : Prop where
  fits : Fits source desk.set.entries
  plans : ∀ step ∈ desk.plans, step.revision ≤ desk.set.revision ∧
    (step.revision = desk.set.revision → Fits source (desk.set.entriesAfter step))

/-- A change of the set leaves every plan behind. -/
theorem Sound.of_set (h : Sound source desk) (hfits : Fits source set.entries)
    (hrevision : set.revision = desk.set.revision + 1) : Sound source { desk with set } := by
  refine ⟨hfits, fun step hstep => ?_⟩
  have hle := (h.plans step hstep).1
  refine ⟨?_, fun heq => ?_⟩
  · show step.revision ≤ set.revision
    omega
  · have heq : step.revision = set.revision := heq
    omega

/-- **Every action keeps the invariant.** -/
theorem Sound.next (h : Sound source desk) (action : Action) :
    Sound source (desk.next source action) := by
  cases action with
  | add e =>
    rw [Desk.next]
    split
    · next set hadd =>
      obtain ⟨hfits, hrevision⟩ := add_fits h.fits hadd
      exact h.of_set hfits hrevision
    · exact h
  | plan e =>
    rw [Desk.next]
    split
    · next step hplan =>
      have hstep := plan_eq_ok h.fits hplan
      refine ⟨h.fits, fun step' hstep' => ?_⟩
      rcases List.mem_append.mp hstep' with hold | hnew
      · exact h.plans step' hold
      · obtain rfl := List.mem_singleton.mp hnew
        exact ⟨Nat.le_of_eq hstep.revision_eq, fun _ => hstep.fits⟩
    · exact h
  | commit index =>
    rw [Desk.next]
    split
    · next step hindex =>
      split
      · next set hcarry =>
        have hplan := h.plans step (List.mem_of_getElem? hindex)
        rw [EditSet.carryOut] at hcarry
        split at hcarry
        · next hrevision =>
          obtain rfl := Except.ok.inj hcarry
          exact h.of_set (hplan.2 hrevision) rfl
        · exact nomatch hcarry
      · exact h
    · exact h

theorem sound_foldl : ∀ (actions : List Action) {desk : Desk}, Sound source desk →
    Sound source (actions.foldl (next source) desk)
  | [], _, h => h
  | action :: actions, _, h => sound_foldl actions (h.next action)

theorem sound_run (source : String) (actions : List Action) : Sound source (run source actions) :=
  sound_foldl actions ⟨fits_nil source, fun _ h => absurd h List.not_mem_nil⟩

/-- **Whatever is done at a desk**, the entries come in order with an insertion before a
replacement, each ends before the next one starts, no two overlap, all lie in the text and on its
boundaries; and carrying them out gives a text of the size of the source with their growth. -/
theorem run_sound (source : String) (actions : List Action) :
    (run source actions).set.entries.Pairwise (fun a b => a.precedes b = true) ∧
      (run source actions).set.entries.Pairwise (fun a b => a.stop ≤ b.offset) ∧
      (run source actions).set.entries.Pairwise
        (fun a b => a.overlaps b = false ∧ b.overlaps a = false) ∧
      (∀ e ∈ (run source actions).set.entries, e.offset ≤ e.stop ∧
        e.stop ≤ source.utf8ByteSize ∧ IsBoundary source e.offset ∧ IsBoundary source e.stop) ∧
      ∃ edited, (run source actions).set.apply source = .ok edited ∧
        (edited.utf8ByteSize : Int) =
          source.utf8ByteSize + ((run source actions).set.entries.map growth).sum := by
  have h := (sound_run source actions).fits
  refine ⟨h.apart.imp And.left, h.apart.imp And.right, h.apart.imp fun {a b} hab => ?_,
    fun e he => ?_, _, applyAll_eq_ok h, size_applyAll h⟩
  · exact ⟨hab.overlaps_eq_false, by rw [overlaps_comm, hab.overlaps_eq_false]⟩
  · obtain ⟨hstart, hstop⟩ := h.onBoundaries e he
    exact ⟨e.offset_le_stop, hstop.le_size, hstart, hstop⟩

end Desk

end ProbeWeaver
