import ProbeWeaver.Proofs.Edit.Arrivals
import ProbeWeaver.Proofs.Run.Numbers

/-!
# Proofs/Run/Files — what each file takes in a run

All edits of listed rules are insertions, so at any time the accepted edits of a file are what its
events have made so far, in order of arrival (`RunState.Steps.holds_of_start`).
-/

namespace ProbeWeaver

variable {t : Tree} {u : SourceUnit} {r : Rule} {m : Match} {cx : EditContext} {edit : Edit}
  {draws : List Draw} {edits : List Edit} {file : ParsedFile} {place : Nat}

/-- **The edits made for the file at a place**, in order. -/
def editsFor (place : Nat) (log : List Event) : List Edit :=
  (log.filter (·.place == place)).flatMap (·.edits)

theorem editsFor_append (place : Nat) (log more : List Event) :
    editsFor place (log ++ more) = editsFor place log ++ editsFor place more := by
  rw [editsFor, List.filter_append, List.flatMap_append]
  rfl

theorem editsFor_singleton (ev : Event) : editsFor ev.place [ev] = ev.edits := by
  have hself : [ev].filter (·.place == ev.place) = [ev] := by simp
  rw [editsFor, hself, List.flatMap_cons, List.flatMap_nil, List.append_nil]

theorem editsFor_of_forall_ne {log : List Event} (h : ∀ ev ∈ log, ev.place ≠ place) :
    editsFor place log = [] := by
  rw [editsFor, List.filter_eq_nil_iff.mpr fun ev hev => by simpa using h ev hev]
  rfl

theorem exists_event_of_mem_editsFor {log : List Event} (h : edit ∈ editsFor place log) :
    ∃ ev ∈ log, ev.place = place ∧ edit ∈ ev.edits := by
  obtain ⟨ev, hev, hedit⟩ := List.mem_flatMap.mp h
  obtain ⟨hev, hplace⟩ := List.mem_filter.mp hev
  exact ⟨ev, hev, beq_iff_eq.mp hplace, hedit⟩

/-- **The edits of an insertive rule are insertions**, at edges of the tree. -/
theorem Rule.Makes.insertsAtEdge (h : r.Makes cx m edit draws) (hr : r.Insertive)
    (hm : m.Within t) (hhas : m.Has r.binds) : edit.InsertsAtEdge t := by
  obtain ⟨e, he, hrange, -⟩ := h
  obtain ⟨offset, hrange', hedge⟩ := exists_anchorRange hm hhas (hr.anchors e he)
  obtain ⟨hoffset, hlength⟩ := Prod.mk.inj (Except.ok.inj (hrange.symm.trans hrange'))
  exact ⟨hlength, hoffset ▸ hedge⟩

theorem Rule.Makes.length_eq_zero (h : r.Makes cx m edit draws) (hr : r.Insertive)
    (hm : m.Within t) (hhas : m.Has r.binds) : edit.length = 0 :=
  (h.insertsAtEdge hr hm hhas).1

/-- **The file holds what arrived** for it. -/
structure ParsedFile.Holds (file : ParsedFile) (u : SourceUnit) (edits : List Edit) : Prop where
  unit : file.unit = u
  gathers : file.edits.Gathers edits
  fits : Edit.Fits u.source file.edits.entries

namespace RunState

variable {s s' : RunState} {ev : Event} {log : List Event}

theorem Step.length_eq_zero (h : Step s ev s') (hcall : IsListedCall s.units ev.call u t)
    (hedit : edit ∈ ev.edits) : edit.length = 0 := by
  obtain ⟨accepted, dss, -, hedits⟩ := h.exists_draws hcall
  obtain ⟨draws, -, hmakes⟩ := exists_of_forall₂_of_mem hedits.flip hedit
  obtain ⟨hwithin, hhas⟩ := hcall.listed.insertive.of_offers hcall.root hcall.offers
  exact Rule.Makes.length_eq_zero hmakes hcall.listed.insertive hwithin hhas

/-- **One match** adds its edits to its file and leaves the others as they are. -/
theorem Step.exists_holds (h : Step s ev s') (hins : ∀ e ∈ ev.edits, e.length = 0)
    (hslot : s.slots[place]? = some (.parsed file)) (hfile : file.Holds u edits) :
    ∃ file', s'.slots[place]? = some (.parsed file') ∧
      file'.Holds u (edits ++ editsFor place [ev]) := by
  cases h with
  | @mk front back other visit made accepted numbering numbering' hmade hadded =>
    by_cases hplace : front.length = place
    · subst hplace
      rw [List.getElem?_append_right (Nat.le_refl _), Nat.sub_self] at hslot
      obtain rfl := FileSlot.parsed.inj (Option.some.inj hslot)
      refine ⟨{ other with edits := accepted }, ?_, ?_⟩
      · rw [List.getElem?_append_right (Nat.le_refl _), Nat.sub_self]
        rfl
      · rw [hfile.unit] at hadded
        obtain ⟨hgathers, hfits⟩ := hfile.gathers.addAll hfile.fits hins hadded
        rw [editsFor_singleton ⟨front.length, visit, made⟩]
        exact ⟨hfile.unit, hgathers, hfits⟩
    · refine ⟨file, ?_, ?_⟩
      · rw [← hslot, getElem?_append_cons_of_ne hplace]
      · rw [editsFor_of_forall_ne fun ev hev => List.mem_singleton.mp hev ▸ hplace,
          List.append_nil]
        exact hfile

/-- **Matches in a row**, each of a listed rule. -/
theorem Steps.exists_holds (h : Steps s log s')
    (hcalls : ∀ ev ∈ log, ∃ u t, IsListedCall s.units ev.call u t)
    (hslot : s.slots[place]? = some (.parsed file)) (hfile : file.Holds u edits) :
    ∃ file', s'.slots[place]? = some (.parsed file') ∧
      file'.Holds u (edits ++ editsFor place log) := by
  induction h generalizing file edits with
  | nil =>
    refine ⟨file, hslot, ?_⟩
    rw [show editsFor place [] = [] from rfl, List.append_nil]
    exact hfile
  | @cons s s' s'' ev log step rest ih =>
    obtain ⟨v, t, hcall⟩ := hcalls ev List.mem_cons_self
    obtain ⟨file₁, hslot₁, hfile₁⟩ :=
      step.exists_holds (fun e he => step.length_eq_zero hcall he) hslot hfile
    have hlog : editsFor place (ev :: log) = editsFor place [ev] ++ editsFor place log :=
      editsFor_append place [ev] log
    rw [hlog, ← List.append_assoc]
    refine ih (fun ev' hev' => ?_) hslot₁ hfile₁
    rw [step.units_eq]
    exact hcalls ev' (List.mem_cons_of_mem ev hev')

theorem units_start (files : List SourceFile) :
    RunState.units ⟨files.map (·.slot), {}⟩ = files.map (·.unit?) := by
  rw [RunState.units, List.map_map]
  rfl

/-- **From the start on**, each parsed file holds what its events have made. -/
theorem Steps.holds_of_start {files : List SourceFile}
    (h : Steps ⟨files.map (·.slot), {}⟩ log s')
    (hcalls : ∀ ev ∈ log, ∃ u t, IsListedCall (files.map (·.unit?)) ev.call u t)
    (hslot : s'.slots[place]? = some (.parsed file)) :
    (files.map (·.unit?))[place]? = some (some file.unit) ∧
      file.Holds file.unit (editsFor place log) := by
  have hunits : (files.map (·.unit?))[place]? = some (some file.unit) := by
    rw [← units_start, ← h.units_eq, RunState.units, List.getElem?_map, hslot]
    rfl
  refine ⟨hunits, ?_⟩
  rw [List.getElem?_map] at hunits
  obtain ⟨origin, horigin, hunit⟩ := Option.map_eq_some_iff.mp hunits
  obtain ⟨file₀, hfile₀, hempty⟩ : ∃ file₀, origin.slot = .parsed file₀ ∧ file₀.edits = {} := by
    rw [SourceFile.unit?, SourceFile.slot] at hunit
    rw [SourceFile.slot]
    split at hunit
    · cases hunit
    · split at hunit
      · exact ⟨_, rfl, rfl⟩
      · cases hunit
  have hslot₀ : (files.map (·.slot))[place]? = some (.parsed file₀) := by
    rw [List.getElem?_map, horigin, Option.map_some, hfile₀]
  have hholds₀ : file₀.Holds file₀.unit [] := by
    refine ⟨rfl, ?_, ?_⟩
    · rw [hempty]
      exact .empty
    · rw [hempty]
      exact Edit.fits_nil _
  obtain ⟨file', hslot', hfile'⟩ :=
    h.exists_holds (by rw [units_start]; exact hcalls) hslot₀ hholds₀
  obtain rfl := FileSlot.parsed.inj (Option.some.inj (hslot.symm.trans hslot'))
  rw [List.nil_append] at hfile'
  exact ⟨rfl, hfile'.gathers, hfile'.unit ▸ hfile'.fits⟩

end RunState

end ProbeWeaver
