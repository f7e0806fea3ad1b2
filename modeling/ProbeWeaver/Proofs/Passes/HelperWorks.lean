import ProbeWeaver.Proofs.Edit.Arrivals
import ProbeWeaver.Proofs.Passes.HelperCalls

/-!
# Proofs/Passes/HelperWorks — the helpers that works call

The works of the stack-to-heap pass say which helpers their edits call, and for which arrays
(`Relocation.Work.calls`); each call serves its array (`Relocation.Work.IsDue.serves`).  Their edits
hold these calls and no other (`Relocation.Work.IsDue.followedIn`), and accepted edits insert a call
exactly if one of them was made (`Relocation.FollowedIn.insertsAnywhere_iff`).
-/

namespace ProbeWeaver

open Text

variable {t : Tree} {u : SourceUnit} {call other s tail name : String} {type : CType}
  {d : Declarator} {decl : Node} {lottery : Relocation.Lottery} {e : Edit} {edits : List Edit}
  {set : EditSet}

namespace Relocation

/-! ## The calls of a work -/

/-- **The calls that a work makes**, each with the array that it is about. -/
def Work.calls : Work → List (String × Declarator)
  | move d _ (some _) => [(copyCall d.type.arrayRank (d.node.kind == .initDeclarator), d)]
  | move _ _ none => []
  | free _ freed => freed.map fun x => (releaseCall x.2.type.arrayRank, x.2)

/-- What stands behind a call, for each time that it is made. -/
def tailsOf (u : SourceUnit) (call : String) (calls : List (String × Declarator)) : List String :=
  calls.flatMap fun made => if made.1 = call then [arguments (u.text made.2.name)] else []

/-- **A helper serves the array**: it is the helper for the rank of the array, which is one more than
that of what the array holds, as its marker spells it. -/
structure Serves (made : String × Declarator) : Prop where
  isHelper : made.1 ∈ helperCalls
  named : made.1 = releaseCall made.2.type.arrayRank ∨
    ∃ isInitialized, made.1 = copyCall made.2.type.arrayRank isInitialized
  rank : IsServed made.2.type.arrayRank
  element : ∃ element, made.2.type.element? = some element ∧
    elementSpelling made.2.type = element.render ∧ made.2.type.arrayRank = element.arrayRank + 1

theorem exists_element (h : type.isArray = true) : ∃ element, type.element? = some element ∧
    elementSpelling type = element.render ∧ type.arrayRank = element.arrayRank + 1 := by
  cases type with
  | array element size => exact ⟨element, rfl, rfl, rfl⟩
  | named | pointer | function => contradiction

/-- The rank of an eligible array is served. -/
theorem isServed_of_isEligible (hd : d ∈ u.declarators decl) (h : isEligible u d.node = true) :
    IsServed d.type.arrayRank ∧ d.type.isArray = true := by
  obtain ⟨-, -, harray, hrank, -⟩ := (isEligible_iff hd).mp h
  obtain ⟨element, -, -, hsucc⟩ := exists_element harray
  exact ⟨⟨hsucc ▸ Nat.le_add_left 1 _, hrank⟩, harray⟩

/-- **What is freed before a return** by work that is due: served arrays, declared in front. -/
theorem Work.IsDue.exists_declares {ret : Node} {freed : List (Nat × Declarator)}
    (h : (Work.free ret freed).IsDue lottery u) (hu : u.root = .root t) :
    ∀ x ∈ freed, ∃ decl, decl.PlaceOf t ∧ x.2 ∈ u.declarators decl ∧
      isEligible u x.2.node = true ∧ decl.start < ret.start := fun x hx => by
  have hmem := h.2 ▸ List.mem_map_of_mem (f := Prod.snd) hx
  exact exists_mem_arraysInScope (h.1.placeOf hu) (List.mem_filter.mp hmem).1

/-- **The calls that are due serve their arrays.** -/
theorem Work.IsDue.serves {w : Work} (h : w.IsDue lottery u) (hu : u.root = .root t) :
    ∀ made ∈ w.calls, Serves made := by
  intro made hmade
  cases w with
  | move d decl number? =>
    cases number? with
    | none => exact absurd hmade List.not_mem_nil
    | some id =>
      obtain rfl := List.mem_singleton.mp hmade
      obtain ⟨hrank, harray⟩ := isServed_of_isEligible h.1.declares h.1.eligible
      exact ⟨copyCall_mem hrank _, .inr ⟨_, rfl⟩, hrank, exists_element harray⟩
  | free ret freed =>
    obtain ⟨x, hx, rfl⟩ := List.mem_map.mp hmade
    obtain ⟨decl, -, hd, heligible, -⟩ := h.exists_declares hu x hx
    obtain ⟨hrank, harray⟩ := isServed_of_isEligible hd heligible
    exact ⟨releaseCall_mem hrank, .inl rfl, hrank, exists_element harray⟩

/-! ## The texts of works -/

section

variable (hcall : call ∈ helperCalls)
include hcall

/-- **A call of a helper**, in a text that calls no other. -/
theorem followed_call (hother : other ∈ helperCalls) (hs : Followed call s [])
    (htail : tail.toList <+: s.toList) :
    Followed call (other ++ s) (if other = call then [tail] else []) := by
  split
  · next heq => exact heq.symm ▸ hs.needle_append (call_ne_nil hcall) htail
  · next hne =>
    have hall : ∀ call ∈ helperCalls, ∀ other ∈ helperCalls, other ≠ call →
        clashes (bytes call) [] (bytes other) = true := by
      decide +kernel
    exact hs.quiet_append (quiet_of_clashes (hall call hcall other hother hne))

/-- A marker in front of a call changes nothing. -/
theorem followed_marker {lead kind : String} {fields tails : List String} (id : Nat)
    (hlead : lead ∈ ["", "\n"]) (hkind : kind ∈ allKinds)
    (hfields : ∀ f ∈ fields, Quiet call (f ++ ":")) (hs : Followed call s tails) :
    Followed call (lead ++ (markerStart ++ (markerBody id kind fields ++ ("*/" ++ s)))) tails := by
  have hend : Quiet call "*/" := quiet_callPiece hcall (by decide)
  have hmarked := hs.quiet_append
    (quiet_call_marker hcall id hlead hkind hfields hend)
  simp only [String.append_assoc] at hmarked
  exact hmarked

/-- **A heap copy calls its helper.** -/
theorem followed_heapCopy (hu : u.Spares call) (hname : name ∈ u.quotes)
    (helement : elementSpelling type ∈ u.quotes)
    (hinnermost : type.innermost.unqualified.render ∈ u.quotes) (hrank : IsServed type.arrayRank)
    (id : Nat) (isInitialized : Bool) :
    Followed call (heapCopy id name type isInitialized)
      (if copyCall type.arrayRank isInitialized = call then [arguments name] else []) := by
  have hcomma : Closes call ", " := closes_call hcall (by decide)
  have hparen : Closes call ")" := closes_call hcall (by decide)
  have hshadow : Closes call ", MUT_" := closes_call hcall (by decide)
  have hparts := (quiet_arguments hshadow (hu name hname).apart hcomma).append
    (hparen.quiet_append (hu _ hinnermost).apart)
  rw [String.append_assoc] at hparts
  have hcolon : Closes call ":" := closes_call hcall (by decide)
  rw [heapCopy_eq_call]
  refine followed_marker hcall id (by decide) (by decide) ?_ <|
    followed_call hcall (copyCall_mem hrank _) (followed_of_quiet hparts)
      (toList_prefix_append _ _)
  exact List.forall_mem_cons.mpr ⟨(hu _ helement).field, List.forall_mem_cons.mpr
    ⟨(hu _ hname).field, List.forall_mem_singleton.mpr
      (((setApart_call hcall).quiet_number _).append hcolon.quiet)⟩⟩

/-- **What frees an array calls its helper.** -/
theorem followed_freeCall (hu : u.Spares call) (hname : name ∈ u.quotes)
    (helement : elementSpelling type ∈ u.quotes) (hrank : IsServed type.arrayRank) (id : Nat) :
    Followed call (freeCall id name type)
      (if releaseCall type.arrayRank = call then [arguments name] else []) := by
  have hparen : Closes call ");" := closes_call hcall (by decide)
  have hshadow : Closes call ", MUT_" := closes_call hcall (by decide)
  have hline := followed_line hcall (quiet_arguments hshadow (hu name hname).apart hparen)
  rw [String.append_assoc] at hline
  have hfields : ∀ f ∈ [elementSpelling type, name], Quiet call (f ++ ":") :=
    List.forall_mem_cons.mpr ⟨(hu _ helement).field, List.forall_mem_singleton.mpr (hu _ hname).field⟩
  have hmarked := followed_marker hcall id List.mem_cons_self
    (by decide : "VARREF_FREE" ∈ allKinds) hfields
    (followed_call hcall (releaseCall_mem hrank) hline (toList_prefix_append _ _))
  rwa [String.empty_append, ← freeCall_eq_call] at hmarked

end

/-! ## The edits of works -/

/-- **The tails of a call in edits**: it stands in them once for each tail, in order, and none of them
goes on with one that began before it. -/
structure FollowedIn (call : String) (edits : List Edit) (tails : List String) : Prop where
  starts : List.Forall₂ (fun rest tail => tail.toList <+: rest)
    (edits.flatMap fun e => rests call e.text) tails
  apart : ∀ e ∈ edits, Fresh call e.text ∧ ∃ tails, Followed call e.text tails

theorem followedIn_nil : FollowedIn call [] [] := ⟨.nil, fun _ h => absurd h List.not_mem_nil⟩

theorem FollowedIn.append {more : List Edit} {tails tails' : List String}
    (h : FollowedIn call edits tails) (h' : FollowedIn call more tails') :
    FollowedIn call (edits ++ more) (tails ++ tails') where
  starts := by
    rw [List.flatMap_append]
    exact List.rel_append h.starts h'.starts
  apart := fun e he => (List.mem_append.mp he).elim (h.apart e) (h'.apart e)

theorem FollowedIn.cons {offset : Nat} {text : String} {tails tails' : List String}
    (hfresh : Fresh call text) (h : Followed call text tails) (h' : FollowedIn call edits tails') :
    FollowedIn call (⟨offset, 0, text⟩ :: edits) (tails ++ tails') where
  starts := List.rel_append h.starts h'.starts
  apart := List.forall_mem_cons.mpr ⟨⟨hfresh, tails, h⟩, h'.apart⟩

theorem followedIn_flatMap {α : Type} {f : α → List Edit} {tails : α → List String} :
    ∀ {l : List α}, (∀ a ∈ l, FollowedIn call (f a) (tails a)) →
      FollowedIn call (l.flatMap f) (l.flatMap tails)
  | [], _ => followedIn_nil
  | a :: l, h => by
      rw [List.flatMap_cons, List.flatMap_cons]
      exact (h a List.mem_cons_self).append
        (followedIn_flatMap fun b hb => h b (List.mem_cons_of_mem a hb))

/-- **What is put at an offset** holds the call as often as the edits there do. -/
theorem FollowedIn.length_rests_textAt {tails : List String} (h : FollowedIn call edits tails)
    (offset : Nat) : (rests call (textAt edits offset)).length =
      ((edits.filter (·.offset == offset)).flatMap fun e => rests call e.text).length := by
  rw [textAt, length_rests_join (List.forall_mem_map.mpr fun e he =>
    h.apart e (List.mem_filter.mp he).1), List.flatMap_map]

theorem FollowedIn.contains_textAt_iff {tails : List String} (h : FollowedIn call edits tails)
    (hcall : call ∈ helperCalls) (offset : Nat) : contains (textAt edits offset) call = true ↔
      ∃ e ∈ edits, e.offset = offset ∧ contains e.text call = true := by
  have hne := call_ne_nil hcall
  rw [← not_iff_not, Bool.not_eq_true, contains_eq_false_iff hne, ← List.length_eq_zero_iff,
    h.length_rests_textAt, List.length_eq_zero_iff, List.flatMap_eq_nil_iff]
  simp [contains_eq_false_iff hne]

/-- **Accepted edits insert the call** where it has tails. -/
theorem FollowedIn.insertsAnywhere_iff {tails : List String} (h : FollowedIn call edits tails)
    (hset : set.Gathers edits) (hcall : call ∈ helperCalls) :
    set.insertsAnywhere call = true ↔ tails ≠ [] := by
  have hne := call_ne_nil hcall
  have hmade : tails ≠ [] ↔ ∃ e ∈ edits, contains e.text call = true := by
    rw [← List.length_pos_iff, ← h.starts.length_eq, List.length_pos_iff, ne_eq,
      List.flatMap_eq_nil_iff]
    simp [← contains_eq_false_iff hne]
  rw [EditSet.insertsAnywhere, List.any_eq_true, hmade]
  constructor
  · rintro ⟨x, hx, hcontains⟩
    obtain ⟨e, he, -, hcontains⟩ := (h.contains_textAt_iff hcall _).mp (hset.text x hx ▸ hcontains)
    exact ⟨e, he, hcontains⟩
  · rintro ⟨e, he, hcontains⟩
    obtain ⟨x, hx, hoffset⟩ := (hset.offsets e.offset).mpr ⟨e, he, rfl⟩
    refine ⟨x, hx, ?_⟩
    rw [hset.text x hx, hoffset]
    exact (h.contains_textAt_iff hcall _).mpr ⟨e, he, rfl, hcontains⟩

/-- What rules may quote of a declarator of the file. -/
theorem quotes_of_declares (hu : u.root = .root t) (hdecl : decl.PlaceOf t)
    (hd : d ∈ u.declarators decl) : u.text d.name ∈ u.quotes ∧ elementSpelling d.type ∈ u.quotes ∧
      d.type.innermost.unqualified.render ∈ u.quotes :=
  ⟨SourceUnit.text_mem_quotes hu (Declarator.placeOf_name hdecl hd),
    SourceUnit.declarator_mem_quotes hu hdecl hd (.tail _ (.head _)),
    SourceUnit.declarator_mem_quotes hu hdecl hd (.tail _ (.tail _ (.head _)))⟩

/-- What may be quoted of the arrays that are freed before a return. -/
theorem Work.IsDue.quotes_of_freed {ret : Node} {freed : List (Nat × Declarator)}
    (h : (Work.free ret freed).IsDue lottery u) (hu : u.root = .root t) :
    ∀ x ∈ freed, u.text x.2.name ∈ u.quotes ∧ elementSpelling x.2.type ∈ u.quotes := fun x hx => by
  obtain ⟨decl, hdecl, hd, -⟩ := h.exists_declares hu x hx
  obtain ⟨hname, helement, -⟩ := quotes_of_declares hu hdecl hd
  exact ⟨hname, helement⟩

theorem shadow_mem_fixedTexts : "MUT_" ∈ fixedTexts :=
  .tail _ (.tail _ (.tail _ (.tail _ (.head _))))

/-- **The edits of work that is due** insert one of the forms of text. -/
theorem Work.IsDue.exists_inserted {w : Work} (h : w.IsDue lottery u) (hu : u.root = .root t)
    (he : e ∈ w.edits u) : ∃ draws, Inserted u [] draws e.text := by
  cases w with
  | move d decl number? =>
    obtain ⟨hname, helement, hinnermost⟩ := quotes_of_declares hu (h.1.placeOf hu).1 h.1.declares
    simp only [Work.edits, List.mem_cons, List.not_mem_nil, or_false] at he
    rcases he with rfl | rfl
    · exact ⟨_, .fixed shadow_mem_fixedTexts⟩
    · cases number? with
      | none => exact ⟨_, .forwarded hname⟩
      | some id => exact ⟨_, .moved id _ hname helement hinnermost⟩
  | free ret freed =>
    cases freed with
    | nil => exact absurd he List.not_mem_nil
    | cons first rest =>
      rw [List.mem_singleton.mp he]
      have hform := Inserted.freed (u := u)
        ((first :: rest).map fun x => (x.1, u.text x.2.name, x.2.type)) fun x hx => by
          obtain ⟨y, hy, rfl⟩ := List.mem_map.mp hx
          exact h.quotes_of_freed hu y hy
      rw [List.map_map, List.map_map] at hform
      exact ⟨_, hform⟩

/-- **The edits of work that is due** call its helpers, and no other. -/
theorem Work.IsDue.followedIn {w : Work} (h : w.IsDue lottery u) (hu : u.root = .root t)
    (huncalled : u.IsUncalled) (hcall : call ∈ helperCalls) :
    FollowedIn call (w.edits u) (tailsOf u call w.calls) := by
  have hspares := huncalled.spares hcall
  have hserves := h.serves hu
  have hfresh : ∀ e ∈ w.edits u, Fresh call e.text := fun e he => by
    obtain ⟨draws, hform⟩ := h.exists_inserted hu he
    exact fresh_of_startsAmong hcall hform.startsAmong
  cases w with
  | move d decl number? =>
    obtain ⟨hname, helement, hinnermost⟩ := quotes_of_declares hu (h.1.placeOf hu).1 h.1.declares
    have hsecond := hfresh ⟨decl.stop, 0, redeclared u d number?⟩ (.tail _ (.head _))
    refine .cons (hfresh _ List.mem_cons_self) (followed_fixed hcall shadow_mem_fixedTexts) ?_
    cases number? with
    | none => exact .cons hsecond (followed_forwarding hcall hspares hname) followedIn_nil
    | some id =>
      have hrank := (hserves _ List.mem_cons_self).rank
      exact .cons hsecond
        (followed_heapCopy hcall hspares hname helement hinnermost hrank id _) followedIn_nil
  | free ret freed =>
    cases freed with
    | nil => exact followedIn_nil
    | cons first rest =>
      have hcalls : Followed call (callsText u (first :: rest))
          ((first :: rest).flatMap fun x => if releaseCall x.2.type.arrayRank = call then
            [arguments (u.text x.2.name)] else []) := by
        refine followed_join fun x hx => ?_
        obtain ⟨hname, helement⟩ := h.quotes_of_freed hu x hx
        have hrank := (hserves _ (List.mem_map_of_mem hx)).rank
        refine ⟨followed_freeCall hcall hspares hname helement hrank x.1, ?_⟩
        rw [freeCall_eq]
        exact fresh_of_startsAmong hcall (startsAmong_of_start (by decide) (by decide))
      have hedit : FollowedIn call ((Work.free ret (first :: rest)).edits u) (_ ++ []) :=
        .cons (hfresh _ List.mem_cons_self) hcalls followedIn_nil
      rw [List.append_nil] at hedit
      rw [tailsOf, Work.calls, List.flatMap_map]
      exact hedit

/-- **Nothing is called at the start of a file** in which no declaration ends there. -/
theorem Work.IsDue.contains_start {w : Work} (h : w.IsDue lottery u) (hu : u.root = .root t)
    (hcall : call ∈ helperCalls)
    (hdecls : ∀ n ∈ u.root.walk, n.kind = .declaration → n.stop ≠ 0) (he : e ∈ w.edits u)
    (hstart : e.offset = 0) : contains e.text call = false := by
  cases w with
  | move d decl number? =>
    simp only [Work.edits, List.mem_cons, List.not_mem_nil, or_false] at he
    rcases he with rfl | rfl
    · have hall : ∀ call ∈ helperCalls, contains "MUT_" call = false := by decide
      exact hall call hcall
    · exact absurd hstart (hdecls decl h.1.place h.1.kind)
  | free ret freed =>
    cases freed with
    | nil => exact absurd he List.not_mem_nil
    | cons first rest =>
      obtain ⟨decl, -, -, -, hlt⟩ := h.exists_declares hu first List.mem_cons_self
      rw [List.mem_singleton.mp he] at hstart
      exact absurd hstart (Nat.ne_of_gt (Nat.zero_lt_of_lt hlt))

end Relocation

end ProbeWeaver
