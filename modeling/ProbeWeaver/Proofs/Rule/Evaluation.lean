import ProbeWeaver.Proofs.Edit.Arrivals
import ProbeWeaver.Proofs.Outcome
import ProbeWeaver.Proofs.Rule.Insertive

/-!
# Proofs/Rule/Evaluation — the numbers that an evaluation draws

A successful evaluation moves the numbering by draws alone (`Numbering.Hands`), and `Eval.Gives`
says which numbers it drew for the value that it gives.  From nothing, the numbers that a category
handed out are `0, 1, …` up to its count (`Numbering.Hands.of_start`).  The draws of a match are
those of its texts, one after the other (`Rule.gives_editsOfTemplates`).
-/

namespace ProbeWeaver

variable {α β : Type} {numbering numbering' numbering'' : Numbering} {c d : Category}

/-- **A number drawn**, with its category. -/
structure Draw where
  category : Category
  number : Nat
  deriving DecidableEq, Repr

/-- The numbers of one category among draws, in order. -/
def Draw.numbersOf (c : Category) (draws : List Draw) : List Nat :=
  (draws.filter (·.category = c)).map (·.number)

@[simp] theorem Draw.numbersOf_nil (c : Category) : Draw.numbersOf c [] = [] := rfl

theorem Draw.numbersOf_append (c : Category) (ds es : List Draw) :
    Draw.numbersOf c (ds ++ es) = Draw.numbersOf c ds ++ Draw.numbersOf c es := by
  rw [numbersOf, List.filter_append, List.map_append]
  rfl

theorem Draw.numbersOf_cons (c : Category) (x : Draw) (ds : List Draw) :
    Draw.numbersOf c (x :: ds) =
      if x.category = c then x.number :: Draw.numbersOf c ds else Draw.numbersOf c ds := by
  rw [numbersOf, List.filter_cons]
  by_cases h : x.category = c
  · rw [if_pos (decide_eq_true h), if_pos h, List.map_cons]
    rfl
  · rw [if_neg (by simpa using h), if_neg h]
    rfl

/-! ## Numbers handed out -/

namespace Numbering

/-- **The numbering goes over into another by draws**, one after the other. -/
inductive Hands : Numbering → List Draw → Numbering → Prop where
  | nil {numbering : Numbering} : Hands numbering [] numbering
  | cons {numbering numbering' : Numbering} {c : Category} {draws : List Draw}
      (rest : Hands (numbering.next c).2 draws numbering') :
      Hands numbering (⟨c, numbering.count c⟩ :: draws) numbering'

namespace Hands

variable {draws more : List Draw}

theorem append (h : Hands numbering draws numbering') (h' : Hands numbering' more numbering'') :
    Hands numbering (draws ++ more) numbering'' := by
  induction h with
  | nil => exact h'
  | cons rest ih => exact .cons (ih h')

theorem count_le (h : Hands numbering draws numbering') (c : Category) :
    numbering.count c ≤ numbering'.count c := by
  induction h with
  | nil => exact Nat.le_refl _
  | cons rest ih =>
    rw [count_next] at ih
    split at ih
    · next hc =>
      subst hc
      exact Nat.le_of_succ_le ih
    · exact ih

/-- **The numbers of a category follow each other** from its count before to its count after. -/
theorem numbersOf_eq (h : Hands numbering draws numbering') (c : Category) :
    Draw.numbersOf c draws =
      List.range' (numbering.count c) (numbering'.count c - numbering.count c) := by
  induction h with
  | nil => rw [Nat.sub_self]; rfl
  | @cons numbering numbering' c' draws rest ih =>
    have hle := rest.count_le c
    rw [count_next] at ih hle
    rw [Draw.numbersOf_cons, ih]
    by_cases hc : c = c'
    · subst hc
      rw [if_pos rfl] at hle
      rw [if_pos rfl, if_pos rfl, ← Nat.sub_sub, ← List.range'_succ]
      congr 1
      omega
    · rw [if_neg (Ne.symm hc), if_neg hc]

/-- **From nothing**, the numbers of a category are those below its count. -/
theorem of_start (h : Hands {} draws numbering) (c : Category) :
    Draw.numbersOf c draws = List.range (numbering.count c) := by
  have hzero : count {} c = 0 := by cases c <;> rfl
  rw [h.numbersOf_eq c, hzero, Nat.sub_zero, List.range_eq_range']

/-- Every number drawn is below the count after. -/
theorem number_lt (h : Hands numbering draws numbering') {x : Draw} (hx : x ∈ draws) :
    x.number < numbering'.count x.category := by
  have hmem : x.number ∈ Draw.numbersOf x.category draws :=
    List.mem_map_of_mem (List.mem_filter.mpr ⟨hx, decide_eq_true rfl⟩)
  have hle := h.count_le x.category
  rw [h.numbersOf_eq, List.mem_range'_1] at hmem
  omega

/-- A category of which nothing was drawn keeps its count. -/
theorem count_eq (h : Hands numbering draws numbering') (hc : ∀ x ∈ draws, x.category ≠ c) :
    numbering'.count c = numbering.count c := by
  have hnone : Draw.numbersOf c draws = [] := by
    rw [Draw.numbersOf, List.filter_eq_nil_iff.mpr fun x hx => by simpa using hc x hx]
    rfl
  have hle := h.count_le c
  have hlength := congrArg List.length (h.numbersOf_eq c)
  rw [hnone, List.length_nil, List.length_range'] at hlength
  omega

end Hands

end Numbering

/-! ## What an evaluation gives -/

/-- **The evaluation gives** such values with such draws, whenever it succeeds. -/
def Eval.Gives (x : Eval α) (P : α → List Draw → Prop) : Prop :=
  ∀ ⦃numbering a numbering'⦄, x.run numbering = .ok (a, numbering') →
    ∃ draws, numbering.Hands draws numbering' ∧ P a draws

namespace Eval

variable {P Q : α → List Draw → Prop} {x : Eval α} {a : α}

theorem Gives.mono (h : Eval.Gives x P) (hPQ : ∀ a draws, P a draws → Q a draws) :
    Eval.Gives x Q := fun _ _ _ hrun => by
  obtain ⟨draws, hands, hP⟩ := h hrun
  exact ⟨draws, hands, hPQ _ _ hP⟩

/-- What an evaluation gives, it gives in a run with the same draws. -/
theorem Gives.ran (h : Eval.Gives x P) : Eval.Gives x fun a draws => P a draws ∧
    ∃ numbering numbering', x.run numbering = .ok (a, numbering') ∧
      numbering.Hands draws numbering' :=
  fun _ _ _ hrun => by
    obtain ⟨draws, hands, hP⟩ := h hrun
    exact ⟨draws, hands, hP, _, _, hrun, hands⟩

theorem gives_pure (h : P a []) : Eval.Gives (pure a) P := fun _ _ _ hrun => by
  obtain ⟨rfl, rfl⟩ := Prod.mk.inj (Except.ok.inj hrun)
  exact ⟨[], .nil, h⟩

theorem gives_draw (c : Category) :
    Eval.Gives (draw c) fun number draws => draws = [⟨c, number⟩] := fun _ _ _ hrun => by
  obtain ⟨rfl, rfl⟩ := Prod.mk.inj (Except.ok.inj hrun)
  exact ⟨_, .cons .nil, rfl⟩

theorem gives_get : Eval.Gives (get : Eval Numbering) fun _ draws => draws = [] :=
  fun _ _ _ hrun => by
    obtain ⟨rfl, rfl⟩ := Prod.mk.inj (Except.ok.inj hrun)
    exact ⟨[], .nil, rfl⟩

/-- A step that cannot draw. -/
theorem gives_lift (result : Except MatchError α) :
    Eval.Gives (liftM result : Eval α) fun a draws => result = .ok a ∧ draws = [] :=
  fun _ _ _ hrun => by
    cases result with
    | error e => exact nomatch hrun
    | ok a =>
      obtain ⟨rfl, rfl⟩ := Prod.mk.inj (Except.ok.inj hrun)
      exact ⟨[], .nil, rfl, rfl⟩

/-- A name that the text takes for granted. -/
theorem gives_node (m : Match) (name : String) :
    Eval.Gives (liftM (m.node name) : Eval Node) fun n draws =>
      m.node? name = some n ∧ draws = [] :=
  (gives_lift _).mono fun n draws ⟨hn, hdraws⟩ => by
    rw [Match.node] at hn
    split at hn
    · next hname => exact ⟨by rw [hname, Except.ok.inj hn], hdraws⟩
    · contradiction

theorem gives_ite {p : Prop} [Decidable p] {y : Eval α} (hx : p → Eval.Gives x P)
    (hy : ¬ p → Eval.Gives y P) : Eval.Gives (if p then x else y) P := by
  split
  · next h => exact hx h
  · next h => exact hy h

/-- **Steps in a row** draw one after the other. -/
theorem Gives.bind {f : α → Eval β} {R : β → List Draw → Prop} (hx : Eval.Gives x P)
    (hf : ∀ a draws, P a draws → Eval.Gives (f a) fun b more => R b (draws ++ more)) :
    Eval.Gives (x >>= f) R := by
  intro numbering b numbering'' hrun
  rw [StateT.run_bind] at hrun
  obtain ⟨⟨a, numbering'⟩, hx', hrun⟩ := bind_eq_ok_iff.mp hrun
  obtain ⟨draws, hands, hP⟩ := hx hx'
  obtain ⟨more, hands', hR⟩ := hf a draws hP hrun
  exact ⟨draws ++ more, hands.append hands', hR⟩

end Eval

/-! ## The edits of a match -/

/-- **The edits of templates** are the texts that the templates made, in order, with their draws. -/
theorem Rule.gives_editsOfTemplates {cx : EditContext} {m : Match}
    {P : EditTemplate → Option String → List Draw → Prop}
    (hnone : ∀ e draws, P e none draws → draws = []) : ∀ {ts : List EditTemplate},
      (∀ e ∈ ts, Eval.Gives (e.makeText cx m) (P e)) →
        Eval.Gives (editsOfTemplates cx m ts) fun edits draws => ∃ dss, draws = dss.flatten ∧
          List.Forall₂ (fun edit ds => ∃ e ∈ ts,
            anchorRange m e.anchor = .ok (edit.offset, edit.length) ∧ P e (some edit.text) ds)
              edits dss
  | [], _ => Eval.gives_pure ⟨[], rfl, .nil⟩
  | e :: ts, h => by
      refine (Eval.gives_lift _).bind fun range _ hrange => ?_
      obtain ⟨hrange, rfl⟩ := hrange
      refine (h e List.mem_cons_self).bind fun text? draws htext => ?_
      have hrest := gives_editsOfTemplates hnone fun e' he' => h e' (List.mem_cons_of_mem e he')
      have hlift {edit : Edit} {ds : List Draw} : (∃ e' ∈ ts,
          anchorRange m e'.anchor = .ok (edit.offset, edit.length) ∧ P e' (some edit.text) ds) →
            ∃ e' ∈ e :: ts,
              anchorRange m e'.anchor = .ok (edit.offset, edit.length) ∧ P e' (some edit.text) ds :=
        fun ⟨e', he', h⟩ => ⟨e', List.mem_cons_of_mem e he', h⟩
      cases text? with
      | none =>
        refine hrest.mono fun edits more hedits => ?_
        obtain ⟨dss, rfl, hedits⟩ := hedits
        rw [hnone e draws htext]
        exact ⟨dss, rfl, hedits.imp fun _ _ => hlift⟩
      | some text =>
        refine hrest.bind fun edits more hedits => Eval.gives_pure ?_
        obtain ⟨dss, rfl, hedits⟩ := hedits
        refine ⟨draws :: dss, by rw [List.flatten_cons, List.append_nil]; rfl,
          .cons ?_ (hedits.imp fun _ _ => hlift)⟩
        exact ⟨e, List.mem_cons_self, hrange, htext⟩

/-- **A rule with one text at the start of the file** inserts it there, if there is one. -/
theorem Rule.editsOf_of_heading {r : Rule} {makeText : EditText} {cx : EditContext} {m : Match}
    {text? : Option String} (hedits : r.edits = [⟨.startOfFile, makeText⟩])
    (htext : (makeText cx m).run numbering = .ok (text?, numbering')) :
    (r.editsOf cx m).run numbering =
      .ok ((text?.map fun text => (⟨0, 0, text⟩ : Edit)).toList, numbering') := by
  rw [editsOf, hedits]
  refine bind_eq_ok_iff.mpr ⟨(text?, numbering'), htext, ?_⟩
  cases text? <;> rfl

theorem Rule.exists_editsOf_of_heading {r : Rule} {makeText : EditText} {cx : EditContext} {m : Match}
    {text? : Option String} (hedits : r.edits = [⟨.startOfFile, makeText⟩])
    (htext : (makeText cx m).run numbering = .ok (text?, numbering')) :
    ∃ lines, (r.editsOf cx m).run numbering = .ok (lines, numbering') ∧
      (∀ e ∈ lines, e.offset = 0) ∧ textAt lines 0 = text?.getD "" := by
  refine ⟨_, editsOf_of_heading hedits htext, fun e he => ?_, ?_⟩
  · obtain ⟨text, -, rfl⟩ := Option.map_eq_some_iff.mp (Option.mem_toList.mp he)
    rfl
  · cases text? with
    | none => rfl
    | some text => exact textAt_singleton ⟨0, 0, text⟩

end ProbeWeaver
