/-!
# Proofs/Text/Parentheses — texts that can be cut in one way only

Reading a text keeps count of the parentheses that are open (`depthAfter?`).  Texts that close what
they open cannot hold the parenthesis that opens a later one, and texts without a comma outside of
parentheses cannot hold the comma that stands behind a shorter one, so a text that was put together
from them comes apart in the same way.

* `group_inj` — the parentheses that a text ends with, and what they hold.
* `commaList_inj` — the items of a list with commas between them.
* `append_inj_of_mark` — a start without any of some marks, and the first mark behind it.
-/

namespace ProbeWeaver.Text

variable {u v h h' D D' : List Char} {c : Char} {depth outer more : Nat} {loose loose' : Bool}
  {marks : List Char}

/-! ## Open parentheses -/

/-- **The parentheses that are open** after a character; none is closed that was not opened, and
only loose texts have commas where none is open. -/
def stepDepth? (loose : Bool) (depth : Nat) (c : Char) : Option Nat :=
  if c = '(' then some (depth + 1)
  else if c = ')' then if depth = 0 then none else some (depth - 1)
  else if c = ',' ∧ loose = false ∧ depth = 0 then none
  else some depth

/-- The parentheses that are open after characters. -/
def depthAfter? (loose : Bool) (depth : Nat) (cs : List Char) : Option Nat :=
  cs.foldlM (stepDepth? loose) depth

/-- Inside of parentheses the same are open, and those outside; no comma stands outside of all. -/
theorem stepDepth?_inside (h : stepDepth? loose depth c = some outer) (hmore : 0 < more) :
    stepDepth? loose' (depth + more) c = some (outer + more) := by
  unfold stepDepth? at h ⊢
  split at h
  · next hopen =>
    rw [if_pos hopen, ← Option.some.inj h, Nat.add_right_comm]
  · next hopen =>
    rw [if_neg hopen]
    split at h
    · next hclose =>
      split at h
      · contradiction
      · rw [if_pos hclose, if_neg (by omega), ← Option.some.inj h]
        congr 1
        omega
    · next hclose =>
      split at h
      · contradiction
      · rw [if_neg hclose, if_neg (by omega), Option.some.inj h]

theorem depthAfter?_inside (hmore : 0 < more) : ∀ {cs : List Char} {depth : Nat},
    depthAfter? loose depth cs = some outer →
      depthAfter? loose' (depth + more) cs = some (outer + more)
  | [], depth, h => by rw [Option.some.inj (h : some depth = some outer)]; rfl
  | c :: cs, depth, h => by
      obtain ⟨next, hnext, hrest⟩ := Option.bind_eq_some_iff.mp
        (h : (stepDepth? loose depth c).bind (depthAfter? loose · cs) = some outer)
      change (stepDepth? loose' (depth + more) c).bind (depthAfter? loose' · cs) = _
      rw [stepDepth?_inside hnext hmore, Option.bind_some]
      exact depthAfter?_inside hmore hrest

theorem depthAfter?_append : depthAfter? loose depth (u ++ v) =
    (depthAfter? loose depth u).bind (depthAfter? loose · v) :=
  List.foldlM_append

/-- **The text closes what it opens**, and if it is not loose all of its commas are inside of
parentheses. -/
def IsNested (loose : Bool) (cs : List Char) : Prop := depthAfter? loose 0 cs = some 0

theorem IsNested.append (hu : IsNested loose u) (hv : IsNested loose v) :
    IsNested loose (u ++ v) := by
  rw [IsNested, depthAfter?_append, hu]
  exact hv

/-- A text without parentheses and commas. -/
theorem isNested_of_plain : ∀ {u : List Char}, (∀ c ∈ u, c ∉ ['(', ')', ',']) → IsNested loose u
  | [], _ => rfl
  | c :: u, h => by
      have hc := h c List.mem_cons_self
      simp only [List.mem_cons, List.not_mem_nil, or_false, not_or] at hc
      have hstep : stepDepth? loose 0 c = some 0 := by
        rw [stepDepth?, if_neg hc.1, if_neg hc.2.1, if_neg fun h => hc.2.2 h.1]
      change (stepDepth? loose 0 c).bind (depthAfter? loose · u) = some 0
      rw [hstep]
      exact isNested_of_plain fun d hd => h d (List.mem_cons_of_mem c hd)

/-- **Parentheses around a text** take its commas inside. -/
theorem IsNested.group (h : IsNested loose u) : IsNested loose' ('(' :: (u ++ [')'])) := by
  have hinside : depthAfter? loose' (0 + 1) u = some (0 + 1) := depthAfter?_inside Nat.one_pos h
  change depthAfter? loose' (0 + 1) (u ++ [')']) = some 0
  rw [depthAfter?_append, hinside]
  rfl

/-- What holds no comma outside of parentheses may stand in a loose text. -/
theorem IsNested.of_strict (h : IsNested false u) : IsNested true u := by
  have hstep {depth next : Nat} {c : Char} (h : stepDepth? false depth c = some next) :
      stepDepth? true depth c = some next := by
    unfold stepDepth? at h ⊢
    split at h
    · next hopen => rwa [if_pos hopen]
    · next hopen =>
      split at h
      · next hclose => rwa [if_neg hopen, if_pos hclose]
      · next hclose =>
        rw [if_neg hopen, if_neg hclose, if_neg fun h => nomatch h.2.1]
        split at h
        · contradiction
        · exact h
  have hall : ∀ {cs : List Char} {depth : Nat}, depthAfter? false depth cs = some 0 →
      depthAfter? true depth cs = some 0 := by
    intro cs
    induction cs with
    | nil => exact id
    | cons c cs ih =>
      intro depth h
      obtain ⟨next, hnext, hrest⟩ := Option.bind_eq_some_iff.mp
        (h : (stepDepth? false depth c).bind (depthAfter? false · cs) = some 0)
      exact Option.bind_eq_some_iff.mpr ⟨next, hstep hnext, ih hrest⟩
  exact hall h

/-- Items with commas between them. -/
def commaList (l : List (List Char)) : List Char := [',', ' '].intercalate l

theorem commaList_singleton (u : List Char) : commaList [u] = u := List.intercalate_singleton

theorem commaList_cons_cons (u v : List Char) (l : List (List Char)) :
    commaList (u :: v :: l) = u ++ ',' :: ' ' :: commaList (v :: l) := by
  rw [commaList, List.intercalate_cons_cons, List.append_assoc]
  rfl

theorem isNested_commaList : ∀ {l : List (List Char)}, (∀ u ∈ l, IsNested true u) →
    IsNested true (commaList l)
  | [], _ => rfl
  | [u], h => by
      rw [commaList_singleton]
      exact h u List.mem_cons_self
  | u :: v :: l, h => by
      rw [commaList_cons_cons]
      refine (h u List.mem_cons_self).append ?_
      exact isNested_commaList fun w hw => h w (List.mem_cons_of_mem u hw)

/-! ## Cuts -/

/-- **Two cuts** of a text at the same character are one, or either part that is the longer holds
the character of the other cut. -/
theorem append_cons_cases {a b : List Char} (h : a ++ c :: u = b ++ c :: v) :
    (a = b ∧ u = v) ∨ (∃ w, b = a ++ c :: w ∧ u = w ++ c :: v) ∨
      ∃ w, a = b ++ c :: w ∧ v = w ++ c :: u := by
  rcases List.append_eq_append_iff.mp h with ⟨w, hb, hu⟩ | ⟨w, ha, hv⟩
  · cases w with
    | nil => exact .inl ⟨by rw [hb, List.append_nil], (List.cons.inj hu).2⟩
    | cons d w =>
      obtain ⟨rfl, hrest⟩ := List.cons.inj hu
      exact .inr (.inl ⟨w, hb, hrest⟩)
  · cases w with
    | nil => exact .inl ⟨by rw [ha, List.append_nil], (List.cons.inj hv).2.symm⟩
    | cons d w =>
      obtain ⟨rfl, hrest⟩ := List.cons.inj hv
      exact .inr (.inr ⟨w, ha, hrest⟩)

/-- No text that closes what it opens goes on to one from a parenthesis that it opens. -/
theorem IsNested.ne_append_open (hu : IsNested loose u) (hv : IsNested loose' v) (w : List Char) :
    u ≠ w ++ '(' :: v := by
  rintro rfl
  rw [IsNested, depthAfter?_append] at hu
  obtain ⟨depth, -, hrest⟩ := Option.bind_eq_some_iff.mp hu
  have hdepth : depthAfter? loose (0 + (depth + 1)) v = some (0 + (depth + 1)) :=
    depthAfter?_inside (Nat.succ_pos depth) hv
  rw [Nat.zero_add] at hdepth
  exact nomatch Option.some.inj (hdepth.symm.trans hrest)

/-- **The parentheses at the end** of a text start in one place only. -/
theorem group_inj {a b : List Char} (hu : IsNested loose u) (hv : IsNested loose' v)
    (h : a ++ '(' :: (u ++ [')']) = b ++ '(' :: (v ++ [')'])) : a = b ∧ u = v := by
  have h : (a ++ '(' :: u) ++ [')'] = (b ++ '(' :: v) ++ [')'] := by
    simpa only [List.append_assoc, List.cons_append] using h
  rcases append_cons_cases (List.append_cancel_right h) with heq | ⟨w, -, hw⟩ | ⟨w, -, hw⟩
  · exact heq
  · exact absurd hw (hu.ne_append_open hv w)
  · exact absurd hw (hv.ne_append_open hu w)

/-- No text without a comma outside of parentheses goes on from another with a comma. -/
theorem IsNested.ne_append_comma (hu : IsNested false u) (hv : IsNested false v) (w : List Char) :
    u ≠ v ++ ',' :: w := by
  rintro rfl
  rw [IsNested, depthAfter?_append, hv] at hu
  exact nomatch (hu : none = some 0)

/-- **The items of a list** are what its commas separate. -/
theorem commaList_inj : ∀ {l l' : List (List Char)}, l ≠ [] → l' ≠ [] →
    (∀ u ∈ l, IsNested false u) → (∀ u ∈ l', IsNested false u) → commaList l = commaList l' → l = l'
  | [u], [v], _, _, _, _, h => by
      rw [commaList_singleton, commaList_singleton] at h
      rw [h]
  | [u], v :: v' :: l', _, _, hu, hv, h => by
      rw [commaList_singleton, commaList_cons_cons] at h
      exact absurd h ((hu u List.mem_cons_self).ne_append_comma (hv v List.mem_cons_self) _)
  | u :: u' :: l, [v], _, _, hu, hv, h => by
      rw [commaList_cons_cons, commaList_singleton] at h
      exact absurd h.symm ((hv v List.mem_cons_self).ne_append_comma (hu u List.mem_cons_self) _)
  | u :: u' :: l, v :: v' :: l', _, _, hu, hv, h => by
      rw [commaList_cons_cons, commaList_cons_cons] at h
      rcases append_cons_cases h with ⟨rfl, hrest⟩ | ⟨w, hw, -⟩ | ⟨w, hw, -⟩
      · have hu' := fun w hw => hu w (List.mem_cons_of_mem u hw)
        have hv' := fun w hw => hv w (List.mem_cons_of_mem u hw)
        rw [commaList_inj (List.cons_ne_nil u' l) (List.cons_ne_nil v' l') hu' hv'
          (List.cons.inj hrest).2]
      · exact absurd hw ((hv v List.mem_cons_self).ne_append_comma (hu u List.mem_cons_self) w)
      · exact absurd hw ((hu u List.mem_cons_self).ne_append_comma (hv v List.mem_cons_self) w)

/-- **A start without marks** ends at the first mark. -/
theorem append_inj_of_mark (hh : ∀ c ∈ h, c ∉ marks) (hh' : ∀ c ∈ h', c ∉ marks)
    (hD : ∀ c ∈ D.head?, c ∈ marks) (hD' : ∀ c ∈ D'.head?, c ∈ marks) (heq : h ++ D = h' ++ D') :
    h = h' ∧ D = D' := by
  rcases List.append_eq_append_iff.mp heq with ⟨w, rfl, rfl⟩ | ⟨w, rfl, rfl⟩
  · cases w with
    | nil => exact ⟨(List.append_nil h).symm, rfl⟩
    | cons c w => exact absurd (hD c rfl) (hh' c (List.mem_append_right h List.mem_cons_self))
  · cases w with
    | nil => exact ⟨List.append_nil h', rfl⟩
    | cons c w => exact absurd (hD' c rfl) (hh c (List.mem_append_right h' List.mem_cons_self))

end ProbeWeaver.Text
