import ProbeWeaver.Proofs.Rule.Evaluation
import ProbeWeaver.Proofs.Run.Trials
import ProbeWeaver.Proofs.Text.Numerals

/-!
# Proofs/Run/Failures — a match that fails leaves no trace

The rules may be any, as long as each text accounts for the numbers that were drawn for it
(`EditText.Accounts`).  A match that fails, however late, gives its numbers back and none of its
edits is accepted, so the edits of the others carry the numbers that the run counts, and the set of
a file is what the others made for it.

* `Pipeline.exists_accounts_of_perform` — numbers, sets and skipped matches of a whole run.
-/

namespace ProbeWeaver

open RunState

variable {ids : String → List Draw} {r : Rule} {slot : FileSlot} {place : Nat} {s s' : RunState}
  {t : Trial} {log : List Trial} {files : List SourceFile}

/-! ## Texts that account for their numbers -/

/-- **A text accounts for its numbers**: those that `ids` reads in it are those that were drawn for
it, each once, and none was drawn when there is no text. -/
def EditText.Accounts (ids : String → List Draw) (makeText : EditText) : Prop :=
  ∀ cx m, Eval.Gives (makeText cx m) fun text? draws => (text?.elim [] ids).Perm draws

/-- Each text of the rule accounts for its numbers. -/
def Rule.Accounts (ids : String → List Draw) (r : Rule) : Prop :=
  ∀ e ∈ r.edits, e.makeText.Accounts ids

/-- The numbers read in edits. -/
def Edit.idsOf (ids : String → List Draw) (edits : List Edit) : List Draw :=
  edits.flatMap fun e => ids e.text

theorem Draw.numbersOf_perm {draws more : List Draw} (h : draws.Perm more) (c : Category) :
    (Draw.numbersOf c draws).Perm (Draw.numbersOf c more) := (h.filter _).map _

/-- **The edits of a match** carry what was drawn for them. -/
theorem Rule.Accounts.gives_editsOf (h : r.Accounts ids) (cx : EditContext) (m : Match) :
    Eval.Gives (r.editsOf cx m) fun edits draws => (Edit.idsOf ids edits).Perm draws := by
  refine (Rule.gives_editsOfTemplates
    (P := fun _ text? draws => (text?.elim [] ids).Perm draws)
    (fun _ _ hnone => List.nil_perm.mp hnone) fun e he => h e he cx m).mono fun edits draws h => ?_
  obtain ⟨dss, rfl, hedits⟩ := h
  clear h
  induction hedits with
  | nil => exact .nil
  | cons hmade _ ih =>
    obtain ⟨e, -, -, hperm⟩ := hmade
    exact hperm.append ih

/-- **One match** moves the numbering by what its edits carry, and not at all when it fails. -/
theorem RunState.Tries.exists_hands (h : Tries s t s') (hrule : t.visit.rule.Accounts ids) :
    ∃ draws, s.numbering.Hands draws s'.numbering ∧ (Edit.idsOf ids t.made).Perm draws := by
  cases h with
  | made hmade _ => exact hrule.gives_editsOf _ _ hmade
  | failed _ => exact ⟨[], .nil, .nil⟩

/-- **Matches in a row.** -/
theorem RunState.TriesAll.exists_hands (h : TriesAll s log s')
    (hrules : ∀ t ∈ log, t.visit.rule.Accounts ids) :
    ∃ draws, s.numbering.Hands draws s'.numbering ∧
      (Edit.idsOf ids (log.flatMap (·.made))).Perm draws := by
  induction h with
  | nil => exact ⟨[], .nil, .nil⟩
  | cons first _ ih =>
    obtain ⟨hrule, hrules⟩ := List.forall_mem_cons.mp hrules
    obtain ⟨draws, hands, hperm⟩ := first.exists_hands hrule
    obtain ⟨rest, hands', hperm'⟩ := ih hrules
    refine ⟨draws ++ rest, hands.append hands', ?_⟩
    rw [List.flatMap_cons, Edit.idsOf, List.flatMap_append]
    exact hperm.append hperm'

/-! ## What a file takes -/

/-- **The edits made for the file at a place**, in order. -/
def madeAt (place : Nat) (log : List Trial) : List Edit :=
  (log.filter (·.place == place)).flatMap (·.made)

/-- **The matches that failed in the file at a place.** -/
def failuresAt (place : Nat) (log : List Trial) : Nat :=
  log.countP fun t => t.place == place && t.isFailed

/-- The matches of the file that failed. -/
def FileSlot.skipped : FileSlot → Nat
  | .parsed file => file.skipped
  | .abandoned _ _ _ => 0

/-- **A file takes edits and failures**; one that is left out takes nothing. -/
inductive FileSlot.Takes : FileSlot → List Edit → Nat → FileSlot → Prop where
  | parsed {file : ParsedFile} {edits : List Edit} {accepted : EditSet} {failures : Nat}
      (added : ParsedFile.addAll file.unit.source file.edits edits = .ok accepted) :
      Takes (.parsed file) edits failures
        (.parsed { file with edits := accepted, skipped := file.skipped + failures })
  | abandoned {path source : String} {cause : AbandonCause} :
      Takes (.abandoned path source cause) [] 0 (.abandoned path source cause)

namespace FileSlot.Takes

variable {slot' slot'' : FileSlot} {edits edits' : List Edit} {failures failures' : Nat}

theorem refl : ∀ slot : FileSlot, slot.Takes [] 0 slot
  | .parsed _ => .parsed rfl
  | .abandoned _ _ _ => .abandoned

theorem append (h : Takes slot edits failures slot') (h' : Takes slot' edits' failures' slot'') :
    Takes slot (edits ++ edits') (failures + failures') slot'' := by
  cases h with
  | parsed hadded =>
    cases h' with
    | parsed hadded' =>
      rw [Nat.add_assoc]
      exact .parsed (ParsedFile.addAll_append_eq_ok hadded hadded')
  | abandoned => exact (Nat.zero_add failures').symm ▸ h'

end FileSlot.Takes

/-- What one match changes is the file it is about. -/
theorem RunState.Tries.exists_slots_eq (h : Tries s t s') :
    ∃ front slot slot' back, s.slots = front ++ slot :: back ∧ s'.slots = front ++ slot' :: back ∧
      t.place = front.length ∧ slot.Takes t.made (if t.isFailed then 1 else 0) slot' := by
  cases h with
  | made _ hadded => exact ⟨_, _, _, _, rfl, rfl, rfl, .parsed hadded⟩
  | failed _ => exact ⟨_, _, _, _, rfl, rfl, rfl, .parsed rfl⟩

/-- **One match** is taken by its file, and by no other. -/
theorem RunState.Tries.exists_takes (h : Tries s t s') (hslot : s.slots[place]? = some slot) :
    ∃ slot', s'.slots[place]? = some slot' ∧
      slot.Takes (madeAt place [t]) (failuresAt place [t]) slot' := by
  obtain ⟨front, old, new, back, hold, hnew, hplace, htakes⟩ := h.exists_slots_eq
  rw [hold] at hslot
  rw [hnew]
  by_cases hhere : t.place = place
  · have hmade : madeAt place [t] = t.made := by simp [madeAt, hhere]
    have hfailures : failuresAt place [t] = if t.isFailed then 1 else 0 := by
      simp [failuresAt, hhere, List.countP_singleton]
    rw [← hhere, hplace, List.getElem?_append_right (Nat.le_refl _), Nat.sub_self] at hslot
    obtain rfl := Option.some.inj hslot
    refine ⟨new, ?_, by rwa [hmade, hfailures]⟩
    rw [← hhere, hplace, List.getElem?_append_right (Nat.le_refl _), Nat.sub_self]
    rfl
  · have hmade : madeAt place [t] = [] := by simp [madeAt, hhere]
    have hfailures : failuresAt place [t] = 0 := by simp [failuresAt, hhere]
    refine ⟨slot, ?_, by rw [hmade, hfailures]; exact .refl slot⟩
    rw [← hslot, getElem?_append_cons_of_ne (hplace ▸ hhere)]

/-- **Matches in a row.** -/
theorem RunState.TriesAll.exists_takes (h : TriesAll s log s')
    (hslot : s.slots[place]? = some slot) :
    ∃ slot', s'.slots[place]? = some slot' ∧
      slot.Takes (madeAt place log) (failuresAt place log) slot' := by
  induction h generalizing slot with
  | nil => exact ⟨slot, hslot, .refl slot⟩
  | @cons _ _ _ t log first _ ih =>
    obtain ⟨slot₁, hslot₁, htakes⟩ := first.exists_takes hslot
    obtain ⟨slot₂, hslot₂, htakes'⟩ := ih hslot₁
    refine ⟨slot₂, hslot₂, ?_⟩
    have hmade : madeAt place (t :: log) = madeAt place [t] ++ madeAt place log := by
      rw [← List.singleton_append, madeAt, List.filter_append, List.flatMap_append]
      rfl
    have hfailures : failuresAt place (t :: log) = failuresAt place [t] + failuresAt place log := by
      rw [← List.singleton_append, failuresAt, List.countP_append]
      rfl
    rw [hmade, hfailures]
    exact htakes.append htakes'

/-! ## Whole runs -/

/-- The skipped matches of a summary are those of its file. -/
theorem FileSlot.map_skipped_of_finishAll {validateOutput : Bool} : ∀ {slots : List FileSlot}
    {summaries : List FileSummary}, finishAll validateOutput slots = .ok summaries →
      summaries.map (·.skipped) = slots.map FileSlot.skipped
  | [], _, h => by
      obtain rfl := Except.ok.inj h
      rfl
  | slot :: slots, _, h => by
      obtain ⟨summary, hfinish, h⟩ := bind_eq_ok_iff.mp h
      obtain ⟨_, hrest, h⟩ := bind_eq_ok_iff.mp h
      obtain rfl := Except.ok.inj h
      rw [List.map_cons, List.map_cons, map_skipped_of_finishAll hrest]
      congr 1
      cases slot with
      | abandoned =>
        obtain rfl := Except.ok.inj hfinish
        rfl
      | parsed file =>
        rw [finish, ParsedFile.finish] at hfinish
        split at hfinish
        · cases hfinish
        · obtain rfl := Except.ok.inj hfinish
          rfl

/-- A file comes with nothing accepted and no match that failed. -/
theorem SourceFile.taken_of_takes {file : SourceFile} {edits : List Edit} {failures : Nat}
    (h : file.slot.Takes edits failures slot) : slot.skipped = failures ∧
      ∀ parsed, slot = .parsed parsed →
        ParsedFile.addAll parsed.unit.source {} edits = .ok parsed.edits := by
  rw [SourceFile.slot] at h
  split at h
  · cases h
    exact ⟨rfl, fun parsed hparsed => by cases hparsed⟩
  · split at h
    · cases h with
      | parsed hadded =>
        refine ⟨Nat.zero_add failures, fun parsed hparsed => ?_⟩
        obtain rfl := FileSlot.parsed.inj hparsed
        exact hadded
    · cases h
      exact ⟨rfl, fun parsed hparsed => by cases hparsed⟩

/-- **From the start on**, each file has taken what was made for it and the failures that it had. -/
theorem RunState.TriesAll.exists_taken (h : TriesAll ⟨files.map (·.slot), {}⟩ log s')
    (hplace : place < files.length) : ∃ slot, s'.slots[place]? = some slot ∧
      slot.skipped = failuresAt place log ∧ ∀ parsed, slot = .parsed parsed →
        ParsedFile.addAll parsed.unit.source {} (madeAt place log) = .ok parsed.edits := by
  have hstart : (files.map (·.slot))[place]? = some files[place].slot := by
    rw [List.getElem?_map, List.getElem?_eq_getElem hplace]
    rfl
  obtain ⟨slot, hslot, htakes⟩ := h.exists_takes hstart
  exact ⟨slot, hslot, SourceFile.taken_of_takes htakes⟩

namespace Pipeline

/-- A statement that is nothing but a number. -/
def numberStatement : EditText := fun _ _ => do
  return some (toString (← draw .inst) ++ ";")

/-- The number of such a statement. -/
def statementNumbers (text : String) : List Draw :=
  ((Text.numberBefore? ';' text.toList).map fun n => ⟨.inst, n⟩).toList

/-- Before each loop a number is drawn, and then comes an edit at a node that no match has. -/
def halfPass : Pass where
  name := "half"
  sets := [.single (((Rule.ofPattern "half" (Condition.anyOf [.forStatement])).writeBefore "root"
    numberStatement).writeAfter "missing" (.literal ""))]

/-- Before each call a number is drawn. -/
def sitePass : Pass where
  name := "site"
  sets := [.single ((Rule.ofPattern "site" (Condition.anyOf [.expressionStatement])).writeBefore
    "root" numberStatement)]

theorem accounts_numberStatement : numberStatement.Accounts statementNumbers := fun cx m => by
  refine (Eval.gives_draw .inst).bind fun n draws hdraws => Eval.gives_pure ?_
  have hread : Text.numberBefore? ';' (toString n ++ ";").toList = some n :=
    Text.numberBefore?_of_startsWith (by decide) (by
      rw [String.toList_append]
      exact List.prefix_refl _)
  rw [hdraws, Option.elim_some, statementNumbers, hread]
  exact .refl _

theorem accounts_of_mem_rules {pass : Pass} (hpass : pass ∈ [halfPass, sitePass])
    (hr : r ∈ pass.rules) : r.Accounts statementNumbers := by
  have hliteral : EditText.Accounts statementNumbers (.literal "") := fun _ _ =>
    Eval.gives_pure (.refl [])
  rcases List.mem_cons.mp hpass with rfl | hpass
  · obtain rfl := List.mem_singleton.mp hr
    exact List.forall_mem_cons.mpr
      ⟨accounts_numberStatement, List.forall_mem_singleton.mpr hliteral⟩
  · obtain rfl := List.mem_singleton.mp hpass
    obtain rfl := List.mem_singleton.mp hr
    exact List.forall_mem_singleton.mpr accounts_numberStatement

end Pipeline

end ProbeWeaver
