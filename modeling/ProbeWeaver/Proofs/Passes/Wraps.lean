import ProbeWeaver.Passes.Hooks
import ProbeWeaver.Proofs.Text.Weaving
import ProbeWeaver.Proofs.Tree.Layout

/-!
# Proofs/Passes/Wraps — hooks around nested expressions

A hook puts an opener at the start of its expression and a closer at the end.  What several hooks put
at one offset stands in the order in which they came, so they nest when inner ones come first, unless
one expression starts right where another one ends (`Nested`).

* `wrapTree` — the text of a tree with its hooks in place.
* `Nested.weave_within` — insertions in order of arrival give that text.
-/

namespace ProbeWeaver.Hooks

open Text Node

/-! ## What hooks put at an offset -/

/-- **A hook around a place**, with its number. -/
structure Wrap where
  place : Node
  hook : Hook
  number : Nat

/-- What stands behind the place. -/
def Wrap.closing (w : Wrap) : String := closerStem w.hook ++ toString w.number ++ ")"

/-- The edits that put the hook around the place. -/
def Wrap.edits (w : Wrap) : List Edit := [⟨w.place.start, 0, opener⟩, ⟨w.place.stop, 0, w.closing⟩]

/-- An edge of the place lies at the offset. -/
def Wrap.Touches (x : Nat) (w : Wrap) : Prop := w.place.start = x ∨ w.place.stop = x

/-- **What hooks put at an offset**, in order. -/
def putBy (ws : List Wrap) (x : Nat) : String := textAt (ws.flatMap Wrap.edits) x

variable {t : Tree} {source : String} {w : Wrap} {ws : List Wrap} {p q : Wrap → Bool} {n : Node}
  {x i : Nat}

theorem putBy_cons (w : Wrap) (ws : List Wrap) (x : Nat) : putBy (w :: ws) x =
    (if w.place.start = x then opener else "") ++
      ((if w.place.stop = x then w.closing else "") ++ putBy ws x) := by
  rw [putBy, List.flatMap_cons, Wrap.edits, List.cons_append, List.singleton_append,
    ← List.singleton_append, textAt_append, textAt_singleton_eq_ite, ← List.singleton_append,
    textAt_append, textAt_singleton_eq_ite, putBy]

theorem putBy_append (ws vs : List Wrap) (x : Nat) : putBy (ws ++ vs) x = putBy ws x ++ putBy vs x := by
  rw [putBy, List.flatMap_append, textAt_append]
  rfl

theorem putBy_cons_of_not_touches (h : ¬ w.Touches x) : putBy (w :: ws) x = putBy ws x := by
  rw [Wrap.Touches, not_or] at h
  rw [putBy_cons, if_neg h.1, if_neg h.2, String.empty_append, String.empty_append]

/-- Hooks that touch an offset nowhere put nothing there. -/
theorem putBy_of_untouched : ∀ {ws : List Wrap}, (∀ w ∈ ws, ¬ w.Touches x) → putBy ws x = ""
  | [], _ => rfl
  | w :: ws, h => by
      rw [putBy_cons_of_not_touches (h w List.mem_cons_self),
        putBy_of_untouched fun v hv => h v (List.mem_cons_of_mem w hv)]

/-- **Only hooks that touch the offset count.** -/
theorem putBy_filter_congr : ∀ {ws : List Wrap}, (∀ w ∈ ws, w.Touches x → p w = q w) →
    putBy (ws.filter p) x = putBy (ws.filter q) x
  | [], _ => rfl
  | w :: ws, h => by
      have hrest := putBy_filter_congr fun v hv => h v (List.mem_cons_of_mem w hv)
      by_cases htouches : w.Touches x
      · rw [List.filter_cons, List.filter_cons, h w List.mem_cons_self htouches]
        split
        · rw [putBy_cons, putBy_cons, hrest]
        · exact hrest
      · rw [List.filter_cons, List.filter_cons]
        split <;> split <;> simp only [putBy_cons_of_not_touches htouches, hrest]

theorem putBy_filter (h : ∀ w ∈ ws, w.Touches x → p w = true) :
    putBy (ws.filter p) x = putBy ws x := by
  have hall : ws.filter (fun _ => true) = ws := List.filter_eq_self.mpr fun _ _ => rfl
  rw [putBy_filter_congr h, hall]

theorem putBy_filter_of_untouched (h : ∀ w ∈ ws, w.Touches x → p w = false) :
    putBy (ws.filter p) x = "" :=
  putBy_of_untouched fun w hw htouches => by
    obtain ⟨hw, hp⟩ := List.mem_filter.mp hw
    rw [h w hw htouches] at hp
    contradiction

/-- Openers, one after the other. -/
def openers (k : Nat) : String := String.join (List.replicate k opener)

theorem openers_add (k m : Nat) : openers (k + m) = openers k ++ openers m := by
  rw [openers, ← List.replicate_append_replicate, String.join_append]
  rfl

/-- **Where no place ends**, there are only openers, and their order does not matter. -/
theorem putBy_eq_openers : ∀ {ws : List Wrap}, (∀ w ∈ ws, w.Touches x → w.place.stop ≠ x) →
    putBy ws x = openers (ws.countP fun w => w.place.start = x)
  | [], _ => rfl
  | w :: ws, h => by
      have hrest := putBy_eq_openers fun v hv => h v (List.mem_cons_of_mem w hv)
      by_cases hstart : w.place.start = x
      · have hstop := h w List.mem_cons_self (.inl hstart)
        rw [putBy_cons, if_pos hstart, if_neg hstop, String.empty_append, hrest, List.countP_cons,
          if_pos (decide_eq_true hstart), Nat.add_comm, openers_add]
        rfl
      · have hstop : w.place.stop ≠ x := fun hstop => h w List.mem_cons_self (.inr hstop) hstop
        rw [putBy_cons_of_not_touches (not_or.mpr ⟨hstart, hstop⟩), hrest, List.countP_cons,
          if_neg (by simpa using hstart), Nat.add_zero]

/-! ## The text with hooks in place -/

mutual

/-- **The text of a tree with its hooks in place**, the tree standing at `here`. -/
def wrapTree (source : String) (ws : List Wrap) (here : Node) : Tree → String
  | .node _ _ s _ cs =>
    let inside := wrapTrees source ws here 0 s.start s.stop cs
    match ws.find? (·.place.sameAs here) with
    | some w => opener ++ (inside ++ w.closing)
    | none => inside

/-- The text between two offsets, with the children of `above` from number `i` on. -/
def wrapTrees (source : String) (ws : List Wrap) (above : Node) :
    Nat → Nat → Nat → List Tree → String
  | _, start, stop, [] => slice source start stop
  | i, start, stop, t :: ts =>
    slice source start t.span.start ++ (wrapTree source ws (.child above i t) t ++
      wrapTrees source ws above (i + 1) t.span.stop stop ts)

end

/-! ## Hooks in order -/

/-- Of two kinds of elements in order, those of the first kind come first. -/
theorem filter_or_of_pairwise {α : Type} {p q : α → Bool} : ∀ {l : List α},
    l.Pairwise (fun a b => q a = true → p b = false) → (∀ a ∈ l, q a = true → p a = false) →
      l.filter (fun a => p a || q a) = l.filter p ++ l.filter q
  | [], _, _ => rfl
  | a :: l, hpairs, hself => by
      obtain ⟨hfirst, hpairs⟩ := List.pairwise_cons.mp hpairs
      have hrest := filter_or_of_pairwise hpairs fun b hb => hself b (List.mem_cons_of_mem a hb)
      by_cases hq : q a = true
      · have hnone : l.filter p = [] := List.filter_eq_nil_iff.mpr fun b hb =>
          Bool.eq_false_iff.mp (hfirst b hb hq)
        rw [List.filter_cons, List.filter_cons, List.filter_cons, hrest, hnone,
          hself a List.mem_cons_self hq, hq]
        rfl
      · rw [Bool.not_eq_true] at hq
        rw [List.filter_cons, List.filter_cons, List.filter_cons, hrest, hq, Bool.or_false]
        split <;> rfl

/-- **Hooks that nest**: around places of the tree, inner ones first, none that starts where another
one ends, except right inside. -/
structure Nested (t : Tree) (ws : List Wrap) : Prop where
  places : ∀ w ∈ ws, w.place.PlaceOf t
  inner : ws.Pairwise fun v w => w.place.isWithin v.place = false
  apart : ∀ v ∈ ws, ∀ w ∈ ws, v.place.stop = w.place.start → w.place.isWithin v.place = true

namespace Nested

/-- What is within a place comes before the hook around the place, of which there is one at most. -/
theorem filter_isWithin (h : Nested t ws) (n : Node) :
    ws.filter (·.place.isWithin n) = ws.filter (fun w => (branch? n w.place).isSome) ++
      (ws.find? (·.place.sameAs n)).toList := by
  have hown : ws.filter (·.place.sameAs n) = (ws.find? (·.place.sameAs n)).toList := by
    have hpairs := h.inner.filter (·.place.sameAs n)
    rw [← List.head?_filter]
    cases hws : ws.filter (·.place.sameAs n) with
    | nil => rfl
    | cons v rest =>
      cases rest with
      | nil => rfl
      | cons w rest =>
        have hsame {u : Wrap} (hu : u ∈ ws.filter (·.place.sameAs n)) : u.place.path = n.path :=
          beq_iff_eq.mp (List.mem_filter.mp hu).2
        have hv := hsame (hws ▸ List.mem_cons_self)
        have hw := hsame (hws ▸ List.mem_cons_of_mem v List.mem_cons_self)
        rw [hws] at hpairs
        have hnot := (List.pairwise_cons.mp hpairs).1 w List.mem_cons_self
        have hwithin : w.place.isWithin v.place = true :=
          isWithin_iff.mpr (hv ▸ hw ▸ List.suffix_refl _)
        rw [hnot] at hwithin
        contradiction
  have hstrict {a b : Node} (ha : a.sameAs n = true) (hb : (branch? n b).isSome = true) :
      b.isWithin a = true := by
    have hb : b.isWithin n = true := isWithin_iff_branch?.mpr (.inr hb)
    rw [isWithin_iff] at hb ⊢
    exact (beq_iff_eq.mp ha : a.path = n.path) ▸ hb
  have hsplit : ws.filter (·.place.isWithin n) =
      ws.filter fun w => (branch? n w.place).isSome || w.place.sameAs n := by
    refine List.filter_congr fun w _ => Bool.eq_iff_iff.mpr ?_
    rw [isWithin_iff_branch?, Bool.or_eq_true_iff, or_comm, sameAs, beq_iff_eq]
  rw [hsplit, ← hown]
  refine filter_or_of_pairwise (h.inner.imp fun {v w} hnot hv => ?_) fun v _ hv => ?_
  · refine Bool.eq_false_iff.mpr fun hw => ?_
    rw [hstrict hv hw] at hnot
    contradiction
  · refine Bool.eq_false_iff.mpr fun hsome => ?_
    obtain ⟨j, hj⟩ := Option.isSome_iff_exists.mp hsome
    have hlength := (branch?_eq_some_iff.mp hj).length_le
    rw [List.length_cons, (beq_iff_eq.mp hv : v.place.path = n.path)] at hlength
    omega

/-! ## Children one after the other -/

/-- The hooks below the children of `n` from number `i` on. -/
def fromChild (ws : List Wrap) (n : Node) (i : Nat) : List Wrap :=
  ws.filter fun w => (branch? n w.place).any (i ≤ ·)

variable {u : Tree}

/-- Hooks from a child on are below the child or from the next one on. -/
theorem any_branch?_iff : (branch? n w.place).any (i ≤ ·) = true ↔
    w.place.isWithin (.child n i u) = true ∨ (branch? n w.place).any (i + 1 ≤ ·) = true := by
  rw [← branch?_eq_some_iff_isWithin]
  cases branch? n w.place with
  | none => exact iff_of_false nofun fun h => h.elim nofun nofun
  | some j =>
    simp only [Option.any_some, decide_eq_true_eq, Option.some.injEq]
    omega

/-- A hook is not below two children. -/
theorem any_branch?_eq_false_of_isWithin (hw : w.place.isWithin (.child n i u) = true) :
    (branch? n w.place).any (i + 1 ≤ ·) = false := by
  rw [branch?_eq_some_iff_isWithin.mpr hw]
  exact decide_eq_false (Nat.not_succ_le_self i)

/-- **A hook below a child** lies inside it. -/
theorem touches_of_isWithin (h : Nested t ws) (ht : t.isLaidOut = true) (hn : n.PlaceOf t)
    (hw : w ∈ ws) (hwithin : w.place.isWithin n = true) (htouches : w.Touches x) :
    n.start ≤ x ∧ x ≤ n.stop := by
  obtain ⟨hstart, hstop⟩ := (h.places w hw).span_isWithin ht hn hwithin
  have hspan := (h.places w hw).start_le_stop ht
  rcases htouches with rfl | rfl <;> omega

/-- A hook below a later child lies behind it. -/
theorem touches_of_branch? (h : Nested t ws) (ht : t.isLaidOut = true)
    (hc : (child n i u).PlaceOf t) (hw : w ∈ ws)
    (hlater : (branch? n w.place).any (i + 1 ≤ ·) = true) (htouches : w.Touches x) :
    u.span.stop ≤ x ∧ (x = u.span.stop → w.place.start = x) := by
  obtain ⟨j, hj, hij⟩ := (Option.any_eq_true ..).mp hlater
  have hij := of_decide_eq_true hij
  have hi : branch? n (.child n i u) = some i := by rw [branch?, if_pos rfl]
  have hstart : u.span.stop ≤ w.place.start :=
    hc.stop_le_start_of_branch? ht (h.places w hw) hc.1 hi hj hij
  have hspan := (h.places w hw).start_le_stop ht
  rcases htouches with rfl | rfl
  · exact ⟨hstart, fun _ => rfl⟩
  · exact ⟨by omega, fun heq => by omega⟩

/-- **Where a child ends**, either hooks below it end or hooks below later ones start. -/
theorem putBy_fromChild_stop (h : Nested t ws) (ht : t.isLaidOut = true)
    (hc : (child n i u).PlaceOf t) :
    putBy (fromChild ws n i) u.span.stop =
      putBy (ws.filter (·.place.isWithin (.child n i u))) u.span.stop ++
        putBy (fromChild ws n (i + 1)) u.span.stop := by
  by_cases hends : ∃ v ∈ ws, v.place.isWithin (.child n i u) = true ∧ v.Touches u.span.stop
  · obtain ⟨v, hv, hwithin, htouches⟩ := hends
    have hstop : v.place.stop = u.span.stop := by
      have hinside := ((h.places v hv).span_isWithin ht hc hwithin).2
      have hspan := (h.places v hv).start_le_stop ht
      rcases htouches with hstart | hstop
      · exact Nat.le_antisymm hinside (hstart ▸ hspan)
      · exact hstop
    have hnone : ∀ w ∈ ws, w.Touches u.span.stop →
        (branch? n w.place).any (i + 1 ≤ ·) = false := by
      intro w hw htouches
      refine Bool.eq_false_iff.mpr fun hlater => ?_
      have hstart := (touches_of_branch? h ht hc hw hlater htouches).2 rfl
      have hwv := h.apart v hv w hw (hstop.trans hstart.symm)
      rw [any_branch?_eq_false_of_isWithin (isWithin_trans hwv hwithin)] at hlater
      contradiction
    rw [fromChild, fromChild, putBy_filter_of_untouched hnone, String.append_empty]
    refine putBy_filter_congr fun w hw htouches => Bool.eq_iff_iff.mpr ?_
    rw [any_branch?_iff (u := u), hnone w hw htouches]
    exact ⟨fun hor => hor.resolve_right nofun, .inl⟩
  · have hnone : ∀ w ∈ ws, w.Touches u.span.stop → w.place.isWithin (.child n i u) = false :=
      fun w hw htouches => Bool.eq_false_iff.mpr fun hwithin => hends ⟨w, hw, hwithin, htouches⟩
    rw [putBy_filter_of_untouched hnone, String.empty_append]
    refine putBy_filter_congr fun w hw htouches => Bool.eq_iff_iff.mpr ?_
    rw [any_branch?_iff (u := u), hnone w hw htouches]
    exact ⟨fun hor => hor.resolve_left nofun, .inr⟩

/-- Before it ends, only hooks below it count. -/
theorem putBy_fromChild_before (h : Nested t ws) (ht : t.isLaidOut = true)
    (hc : (child n i u).PlaceOf t) (hx : x < u.span.stop) :
    putBy (fromChild ws n i) x = putBy (ws.filter (·.place.isWithin (.child n i u))) x := by
  refine putBy_filter_congr fun w hw htouches => Bool.eq_iff_iff.mpr ?_
  rw [any_branch?_iff (u := u)]
  refine ⟨fun hor => hor.resolve_right fun hlater => ?_, .inl⟩
  have hle := (touches_of_branch? h ht hc hw hlater htouches).1
  omega

/-- Behind it, only hooks below later ones. -/
theorem putBy_fromChild_behind (h : Nested t ws) (ht : t.isLaidOut = true)
    (hc : (child n i u).PlaceOf t) (hx : u.span.stop < x) :
    putBy (fromChild ws n i) x = putBy (fromChild ws n (i + 1)) x := by
  refine putBy_filter_congr fun w hw htouches => Bool.eq_iff_iff.mpr ?_
  rw [any_branch?_iff (u := u)]
  refine ⟨fun hor => hor.resolve_left fun hwithin => ?_, .inr⟩
  have hle : x ≤ u.span.stop := (touches_of_isWithin h ht hc hw hwithin htouches).2
  omega

/-- Before it starts, none. -/
theorem putBy_fromChild_eq_empty (h : Nested t ws) (ht : t.isLaidOut = true)
    (hc : (child n i u).PlaceOf t) (hx : x < u.span.start) :
    putBy (fromChild ws n i) x = "" := by
  have hspan : u.span.start ≤ u.span.stop := hc.start_le_stop ht
  rw [putBy_fromChild_before h ht hc (by omega)]
  refine putBy_filter_of_untouched fun w hw htouches => Bool.eq_false_iff.mpr fun hwithin => ?_
  have hle : u.span.start ≤ x := (touches_of_isWithin h ht hc hw hwithin htouches).1
  omega

/-! ## The hook around a place -/

/-- **A hook around a place** stands around what the hooks below the place put. -/
theorem weave_around_own (h : Nested t ws) (ht : t.isLaidOut = true) (hn : n.PlaceOf t)
    (hstart : IsBoundary source n.start) (hstop : IsBoundary source n.stop) (hw : w ∈ ws)
    (hwn : w.place = n) :
    weave (putBy (ws.filter (fun w => (branch? n w.place).isSome) ++ [w])) source n.start n.stop =
      opener ++ (weave (putBy (ws.filter fun w => (branch? n w.place).isSome)) source n.start
        n.stop ++ w.closing) := by
  have hspan := hn.start_le_stop ht
  have hbelow {v : Wrap} (hv : v ∈ ws.filter fun w => (branch? n w.place).isSome) :
      v ∈ ws ∧ v.place.isWithin n = true ∧ v.place.path ≠ n.path := by
    obtain ⟨hv, hsome⟩ := List.mem_filter.mp hv
    refine ⟨hv, isWithin_iff_branch?.mpr (.inr hsome), fun heq => ?_⟩
    obtain ⟨j, hj⟩ := Option.isSome_iff_exists.mp hsome
    have hlength := (branch?_eq_some_iff.mp hj).length_le
    rw [List.length_cons, heq] at hlength
    omega
  -- nothing below ends where the place starts
  have hends : ∀ v ∈ ws.filter (fun w => (branch? n w.place).isSome), v.Touches n.start →
      v.place.stop ≠ n.start := by
    intro v hv _ hstop
    obtain ⟨hv, hwithin, hne⟩ := hbelow hv
    have hnv := h.apart v hv w hw (by rw [hstop, hwn])
    rw [hwn] at hnv
    exact hne (congrArg path ((h.places v hv).eq_of_isWithin hn hwithin hnv))
  have hfirst : n.start < n.stop → putBy (ws.filter (fun w => (branch? n w.place).isSome) ++ [w])
      n.start = opener ++ putBy (ws.filter fun w => (branch? n w.place).isSome) n.start := by
    intro hlt
    have hown : putBy [w] n.start = opener := by
      rw [putBy_cons, hwn, if_pos rfl, if_neg (show n.stop ≠ n.start by omega)]
      rfl
    have hopeners := putBy_eq_openers hends
    rw [putBy_append, hown, hopeners]
    have hone : opener = openers 1 := rfl
    rw [hone, ← openers_add, ← openers_add, Nat.add_comm]
  refine weave_between hstart hstop hspan (fun o ho ho' => ?_) (fun heq => ?_) hfirst fun hlt => ?_
  · have hown : putBy [w] o = "" := putBy_of_untouched fun v hv htouches => by
      obtain rfl := List.mem_singleton.mp hv
      rw [Wrap.Touches, hwn] at htouches
      omega
    rw [putBy_append, hown, String.append_empty]
  · have hnone : putBy (ws.filter fun w => (branch? n w.place).isSome) n.start = "" := by
      refine putBy_of_untouched fun v hv htouches => hends v hv htouches ?_
      obtain ⟨hv', hwithin, -⟩ := hbelow hv
      have hv'' := (h.places v hv').span_isWithin ht hn hwithin
      have hvspan := (h.places v hv').start_le_stop ht
      rcases htouches with h | h <;> omega
    have hown : putBy [w] n.start = opener ++ w.closing := by
      rw [putBy_cons, hwn, if_pos rfl, if_pos heq.symm]
      exact congrArg _ (String.append_empty ..)
    rw [putBy_append, hown, hnone, String.empty_append, String.empty_append]
  · have hown : putBy [w] n.stop = w.closing := by
      rw [putBy_cons, hwn, if_neg (show n.start ≠ n.stop by omega), if_pos rfl,
        String.empty_append]
      exact String.append_empty ..
    rw [putBy_append, hown]

mutual

/-- **Hooks in order** give the text of a tree with the hooks in place. -/
theorem weave_within (h : Nested t ws) (ht : t.isLaidOut = true)
    (hfits : ∀ n : Node, n.PlaceOf t → IsBoundary source n.start ∧ IsBoundary source n.stop) :
    ∀ {u : Tree} {n : Node}, n.PlaceOf t → n.tree = u →
      weave (putBy (ws.filter (·.place.isWithin n))) source n.start n.stop = wrapTree source ws n u
  | .node k f s d cs, n, hn, hu => by
      have hlaid := hn.isLaidOut ht
      rw [hu, Tree.isLaidOut] at hlaid
      have hstart : n.start = s.start := by rw [Node.start, hu]; rfl
      have hstop : n.stop = s.stop := by rw [Node.stop, hu]; rfl
      have hinside := weave_fromChild h ht hfits (i := 0) hn (by rw [hu]; rfl) (hstop ▸ hlaid)
        (hstart ▸ (hfits n hn).1)
      have hbelow : fromChild ws n 0 = ws.filter fun w => (branch? n w.place).isSome := by
        refine List.filter_congr fun w _ => ?_
        cases branch? n w.place with
        | none => rfl
        | some j => rfl
      rw [hbelow] at hinside
      rw [wrapTree, h.filter_isWithin]
      cases hown : ws.find? (·.place.sameAs n) with
      | none =>
        rw [Option.toList_none, List.append_nil, hstart, hinside, hstop]
      | some w =>
        have hw := List.mem_of_find?_eq_some hown
        have hsame : w.place.sameAs n = true := 
          List.find?_some (p := fun w : Wrap => w.place.sameAs n) hown
        have hwn := (h.places w hw).eq_of_path_eq hn (beq_iff_eq.mp hsame)
        rw [Option.toList_some, h.weave_around_own ht hn (hfits n hn).1 (hfits n hn).2 hw hwn,
          hstart, hinside, hstop]

/-- The children from some number on. -/
theorem weave_fromChild (h : Nested t ws) (ht : t.isLaidOut = true)
    (hfits : ∀ n : Node, n.PlaceOf t → IsBoundary source n.start ∧ IsBoundary source n.stop) :
    ∀ {us : List Tree} {n : Node} {i start : Nat}, n.PlaceOf t → n.tree.children.drop i = us →
      Tree.areLaidOut start n.stop us = true → IsBoundary source start →
        weave (putBy (fromChild ws n i)) source start n.stop =
          wrapTrees source ws n i start n.stop us
  | [], n, i, start, hn, hus, hlaid, hstart => by
      rw [wrapTrees]
      refine weave_of_empty hstart (hfits n hn).2 (Tree.le_of_areLaidOut hlaid) fun x _ _ => ?_
      refine putBy_filter_of_untouched fun w hw _ => Bool.eq_false_iff.mpr fun hbranch => ?_
      obtain ⟨j, hj, hij⟩ := (Option.any_eq_true ..).mp hbranch
      have hij := of_decide_eq_true hij
      obtain ⟨u, hu, -⟩ := (h.places w hw).exists_child hj hn
      have hlength := (List.getElem?_eq_some_iff.mp hu.2).1
      have hnone := List.drop_eq_nil_iff.mp hus
      omega
  | u :: us, n, i, start, hn, hus, hlaid, hstart => by
      obtain ⟨hu, hus'⟩ : (child n i u).PlaceOf t ∧ n.tree.children.drop (i + 1) = us := by
        have hhead : n.tree.children[i]? = some u := by
          rw [← Nat.add_zero i, ← List.getElem?_drop, hus, List.getElem?_cons_zero]
        exact ⟨⟨hn, hhead⟩, by rw [← List.drop_drop, hus, List.drop_one, List.tail_cons]⟩
      obtain ⟨hle, -, hrest⟩ := Tree.areLaidOut_cons.mp hlaid
      obtain ⟨hustart, hustop⟩ : IsBoundary source u.span.start ∧ IsBoundary source u.span.stop :=
        hfits _ hu
      have hspan : u.span.start ≤ u.span.stop := hu.start_le_stop ht
      have hchild : weave (putBy (ws.filter (·.place.isWithin (.child n i u)))) source u.span.start
          u.span.stop = wrapTree source ws (.child n i u) u := weave_within h ht hfits hu rfl
      have hothers := weave_fromChild h ht hfits hn hus' hrest hustop
      rw [wrapTrees, ← hchild, ← hothers, weave_around hstart hustart hustop (hfits n hn).2 hle hspan
        (Tree.le_of_areLaidOut hrest)
        (l := putBy (ws.filter (·.place.isWithin (.child n i u)))) (x := "")
        (y := putBy (fromChild ws n (i + 1)) u.span.stop)
        (fun o _ ho => h.putBy_fromChild_before ht hu ho)
        (fun heq => by rw [heq, h.putBy_fromChild_stop ht hu, String.empty_append])
        (fun hlt => by rw [h.putBy_fromChild_before ht hu hlt, String.empty_append])
        fun _ => h.putBy_fromChild_stop ht hu]
      congr 1
      · refine weave_of_empty hstart hustart hle fun x _ hx => ?_
        rcases Nat.eq_or_lt_of_le hx with rfl | hx
        · exact Function.update_self ..
        · rw [Function.update_of_ne (Nat.ne_of_lt hx), h.putBy_fromChild_eq_empty ht hu hx]
      · congr 1
        refine weave_congr hustop (hfits n hn).2 (Tree.le_of_areLaidOut hrest) fun x hx _ => ?_
        rcases Nat.eq_or_lt_of_le hx with rfl | hx
        · exact Function.update_self ..
        · rw [Function.update_of_ne (Nat.ne_of_gt hx), h.putBy_fromChild_behind ht hu hx]

end

/-! ## One hook in the text of the file -/

theorem find?_sameAs (h : Nested t ws) (hw : w ∈ ws) :
    ws.find? (·.place.sameAs w.place) = some w := by
  obtain ⟨front, back, rfl⟩ := List.append_of_mem hw
  obtain ⟨-, -, hcross⟩ := List.pairwise_append.mp h.inner
  have hnone : front.find? (·.place.sameAs w.place) = none := by
    refine List.find?_eq_none.mpr fun v hv hsame => ?_
    have hwithin : w.place.isWithin v.place = true :=
      isWithin_iff.mpr ((beq_iff_eq.mp hsame : v.place.path = w.place.path) ▸ List.suffix_refl _)
    rw [hcross v hv w List.mem_cons_self] at hwithin
    contradiction
  have hself : w.place.sameAs w.place = true := beq_self_eq_true w.place.path
  rw [List.find?_append, hnone, Option.none_or, List.find?_cons, hself]

/-- **The text of a hooked place** stands between its opener and its closer. -/
theorem wrapTree_place (h : Nested t ws) (hw : w ∈ ws) :
    wrapTree source ws w.place w.place.tree = opener ++
      (wrapTrees source ws w.place 0 w.place.start w.place.stop w.place.tree.children ++
        w.closing) := by
  have hown := h.find?_sameAs hw
  rw [Node.start, Node.stop]
  cases htree : w.place.tree with
  | node k f s d cs =>
    rw [wrapTree, hown]
    rfl

/-- Strictly inside a hooked place, only hooks within it count. -/
theorem putBy_inside (h : Nested t ws) (ht : t.isLaidOut = true) (hn : n.PlaceOf t)
    (hx : n.start < x) (hx' : x < n.stop) :
    putBy ws x = putBy (ws.filter (·.place.isWithin n)) x := by
  refine (putBy_filter fun w hw htouches => ?_).symm
  have hspan := (h.places w hw).start_le_stop ht
  rcases (h.places w hw).within_or_apart ht hn with hwithin | habove | hapart | hapart
  · exact hwithin
  · obtain ⟨hstart, hstop⟩ := hn.span_isWithin ht (h.places w hw) habove
    rcases htouches with h | h <;> omega
  · rcases htouches with h | h <;> omega
  · rcases htouches with h | h <;> omega

/-- Where it starts, they are the last openers of all. -/
theorem exists_putBy_start (h : Nested t ws) (ht : t.isLaidOut = true) (hw : w ∈ ws)
    (hlt : w.place.start < w.place.stop) :
    ∃ before, putBy ws w.place.start =
      before ++ putBy (ws.filter (·.place.isWithin w.place)) w.place.start := by
  have hends : ∀ v ∈ ws, v.Touches w.place.start → v.place.stop ≠ w.place.start := by
    intro v hv _ hstop
    have hwithin := h.apart v hv w hw hstop
    have hspan := (h.places w hw).span_isWithin ht (h.places v hv) hwithin
    omega
  have hsublist : (ws.filter (·.place.isWithin w.place)).Sublist ws := List.filter_sublist
  obtain ⟨k, hk⟩ := Nat.exists_eq_add_of_le'
    (hsublist.countP_le (p := fun v => decide (v.place.start = w.place.start)))
  refine ⟨openers k, ?_⟩
  rw [putBy_eq_openers hends, putBy_eq_openers fun v hv => hends v (hsublist.subset hv), hk,
    openers_add]

/-- Where it ends, they come before the closers of hooks around it. -/
theorem exists_putBy_stop (h : Nested t ws) (ht : t.isLaidOut = true) (hw : w ∈ ws) :
    ∃ after, putBy ws w.place.stop =
      putBy (ws.filter (·.place.isWithin w.place)) w.place.stop ++ after := by
  let above (v : Wrap) : Bool := w.place.isWithin v.place && !v.place.isWithin w.place
  have hsplit : putBy ws w.place.stop =
      putBy (ws.filter fun v => v.place.isWithin w.place || above v) w.place.stop := by
    refine (putBy_filter fun v hv htouches => ?_).symm
    have hspan := (h.places v hv).start_le_stop ht
    have hspan' := (h.places w hw).start_le_stop ht
    have hnear : v.place.isWithin w.place = true ∨ w.place.isWithin v.place = true := by
      rcases (h.places v hv).within_or_apart ht (h.places w hw) with hwithin | habove | hapart | hapart
      · exact .inl hwithin
      · exact .inr habove
      · exact .inl (h.apart w hw v hv (by rcases htouches with h | h <;> omega))
      · exact .inr (h.apart v hv w hw (by rcases htouches with h | h <;> omega))
    by_cases hwithin : v.place.isWithin w.place = true
    · exact Bool.or_eq_true_iff.mpr (.inl hwithin)
    · rw [Bool.not_eq_true] at hwithin
      have habove := hnear.resolve_left (Bool.eq_false_iff.mp hwithin)
      exact Bool.or_eq_true_iff.mpr (.inr (by simp only [above, hwithin, habove]; rfl))
  refine ⟨putBy (ws.filter above) w.place.stop, ?_⟩
  rw [hsplit, filter_or_of_pairwise, putBy_append]
  · refine h.inner.imp fun {v u} hnot hv => Bool.eq_false_iff.mpr fun hu => ?_
    rw [isWithin_trans hu (Bool.and_eq_true_iff.mp hv).1] at hnot
    contradiction
  · exact fun v _ hv => (Bool.not_eq_true' _).mp (Bool.and_eq_true_iff.mp hv).2

/-- **A hooked place in the text of the file**: what others insert before the hooks goes to its start
or elsewhere, and what they insert later goes to its end or elsewhere. -/
theorem exists_weave_eq (h : Nested t ws) (ht : t.isLaidOut = true)
    (hfits : ∀ n : Node, n.PlaceOf t → IsBoundary source n.start ∧ IsBoundary source n.stop)
    {front back : List Edit} (hw : w ∈ ws)
    (hfront : ∀ e ∈ front, e.offset ≤ w.place.start ∨ w.place.stop < e.offset)
    (hback : ∀ e ∈ back, e.offset < w.place.start ∨ w.place.stop ≤ e.offset) :
    ∃ before after, weave (textAt (front ++ (ws.flatMap Wrap.edits ++ back))) source 0
        source.utf8ByteSize =
      before ++ (wrapTree source ws w.place w.place.tree ++ after) := by
  obtain ⟨hstart, hstop⟩ := hfits w.place (h.places w hw)
  have hspan := (h.places w hw).start_le_stop ht
  have hput (x : Nat) : textAt (front ++ (ws.flatMap Wrap.edits ++ back)) x =
      textAt front x ++ (putBy ws x ++ textAt back x) := by
    rw [textAt_append, textAt_append, putBy]
  have hfront' {x : Nat} (hx : w.place.start < x) (hx' : x ≤ w.place.stop) :
      textAt front x = "" := textAt_of_forall_ne fun e he heq => by
    rcases hfront e he with h | h <;> omega
  have hback' {x : Nat} (hx : w.place.start ≤ x) (hx' : x < w.place.stop) :
      textAt back x = "" := textAt_of_forall_ne fun e he heq => by
    rcases hback e he with h | h <;> omega
  obtain ⟨after, hafter⟩ := h.exists_putBy_stop ht hw
  obtain ⟨before, hbefore⟩ : ∃ before, w.place.start < w.place.stop → putBy ws w.place.start =
      before ++ putBy (ws.filter (·.place.isWithin w.place)) w.place.start := by
    by_cases hlt : w.place.start < w.place.stop
    · obtain ⟨before, hbefore⟩ := h.exists_putBy_start ht hw hlt
      exact ⟨before, fun _ => hbefore⟩
    · exact ⟨"", fun hlt' => absurd hlt' hlt⟩
  let x := if w.place.start < w.place.stop then textAt front w.place.start ++ before
    else textAt front w.place.start
  let y := after ++ textAt back w.place.stop
  rw [weave_around (isBoundary_zero source) hstart hstop (isBoundary_size source) (Nat.zero_le _)
    hspan hstop.le_size (l := putBy (ws.filter (·.place.isWithin w.place))) (x := x) (y := y),
    h.weave_within ht hfits (h.places w hw) rfl]
  · exact ⟨_, _, rfl⟩
  · intro o ho ho'
    rw [hput, hfront' ho (Nat.le_of_lt ho'), hback' (Nat.le_of_lt ho) ho', String.empty_append,
      String.append_empty, h.putBy_inside ht (h.places w hw) ho ho']
  · intro heq
    rw [hput, heq, hafter, String.append_assoc]
    simp only [x, y, heq, Nat.lt_irrefl, if_false]
  · intro hlt
    rw [hput, hbefore hlt, hback' (Nat.le_refl _) hlt, String.append_empty, ← String.append_assoc]
    simp only [x, if_pos hlt]
  · intro hlt
    rw [hput, hfront' hlt (Nat.le_refl _), String.empty_append, hafter, String.append_assoc]

/-- **The text of the file**, if nothing else is inserted but at the start. -/
theorem weave_eq (h : Nested t ws) (ht : t.isLaidOut = true)
    (hfits : ∀ n : Node, n.PlaceOf t → IsBoundary source n.start ∧ IsBoundary source n.stop)
    {back : List Edit} (hstarts : ∀ w ∈ ws, w.place.start ≠ 0) (hback : ∀ e ∈ back, e.offset = 0) :
    weave (textAt (ws.flatMap Wrap.edits ++ back)) source 0 source.utf8ByteSize =
      textAt back 0 ++ (slice source 0 t.span.start ++ (wrapTree source ws (.root t) t ++
        slice source t.span.stop source.utf8ByteSize)) := by
  have hroot : (Node.root t).PlaceOf t := rfl
  obtain ⟨hstart, hstop⟩ : IsBoundary source t.span.start ∧ IsBoundary source t.span.stop :=
    hfits _ hroot
  have hspan : t.span.start ≤ t.span.stop := hroot.start_le_stop ht
  have hinside {w : Wrap} (hw : w ∈ ws) {x : Nat} (htouches : w.Touches x) :
      t.span.start ≤ x ∧ x ≤ t.span.stop ∧ x ≠ 0 := by
    have hwithin : w.place.isWithin (.root t) = true := isWithin_iff.mpr List.nil_suffix
    have hstarts := hstarts w hw
    obtain ⟨hle, hge⟩ : t.span.start ≤ x ∧ x ≤ t.span.stop :=
      h.touches_of_isWithin ht hroot hw hwithin htouches
    have hwspan := (h.places w hw).start_le_stop ht
    exact ⟨hle, hge, by rcases htouches with h | h <;> omega⟩
  have hall : ws.filter (·.place.isWithin (.root t)) = ws :=
    List.filter_eq_self.mpr fun w _ => isWithin_iff.mpr List.nil_suffix
  have hlines : weave (textAt (ws.flatMap Wrap.edits ++ back)) source 0 source.utf8ByteSize =
      textAt back 0 ++ weave (putBy ws) source 0 source.utf8ByteSize := by
    have hzero : putBy ws 0 = "" := putBy_of_untouched fun w hw htouches =>
      (hinside hw htouches).2.2 rfl
    rw [← weave_self (textAt back) source 0]
    refine weave_append (isBoundary_zero source) (isBoundary_zero source) (isBoundary_size source)
      (Nat.le_refl 0) (Nat.zero_le _) (fun x _ hx => absurd hx (Nat.not_lt_zero x)) ?_ fun x hx _ => ?_
    · rw [textAt_append, hzero, String.append_empty]
      exact (congrArg (· ++ textAt back 0) hzero).trans (String.empty_append ..)
    · have hnone : textAt back x = "" := textAt_of_forall_ne fun e he heq => by
        have := hback e he; omega
      rw [textAt_append, hnone]
      exact String.append_empty ..
  have hbody := h.weave_within ht hfits hroot rfl
  rw [hall] at hbody
  rw [hlines, weave_around (isBoundary_zero source) hstart hstop (isBoundary_size source)
    (Nat.zero_le _) hspan hstop.le_size (l := putBy ws) (x := "") (y := "") (fun _ _ _ => rfl)
    (fun _ => by rw [String.append_empty, String.empty_append])
    (fun _ => (String.empty_append ..).symm) fun _ => (String.append_empty ..).symm]
  congr 1
  congr 1
  · refine weave_of_empty (isBoundary_zero source) hstart (Nat.zero_le _) fun x _ hx => ?_
    rcases Nat.eq_or_lt_of_le hx with rfl | hx
    · exact Function.update_self ..
    · rw [Function.update_of_ne (Nat.ne_of_lt hx)]
      exact putBy_of_untouched fun w hw htouches => by have := hinside hw htouches; omega
  · congr 1
    refine weave_of_empty hstop (isBoundary_size source) hstop.le_size fun x hx _ => ?_
    rcases Nat.eq_or_lt_of_le hx with rfl | hx
    · exact Function.update_self ..
    · rw [Function.update_of_ne (Nat.ne_of_gt hx)]
      exact putBy_of_untouched fun w hw htouches => by have := hinside hw htouches; omega

end Nested

end ProbeWeaver.Hooks
