import Mathlib.Data.List.Basic
import ProbeWeaver.Proofs.Edit.Rendering

/-!
# Proofs/Edit/Arrangement — edits by their offsets

Edits arrive in any order, and the edited text has them by offset: at each offset what is inserted
there, in the order of arrival, and then what replaces the text from there on.  `arrange` lists them
so.  One more arrival goes behind all that it does not precede (`exists_arrange_concat`).
-/

namespace ProbeWeaver.Edit

variable {source : String} {o : Nat} {e : Edit} {edits l m : List Edit}

/-- **What arrived for an offset**: the insertions there in the order of arrival, then what replaces
the text from there on. -/
def arrivalsAt (edits : List Edit) (o : Nat) : List Edit :=
  edits.filter (fun e => e.offset == o && e.isInsertion) ++
    edits.filter fun e => e.offset == o && !e.isInsertion

/-- **The edits by their offsets** in the text. -/
def arrange (source : String) (edits : List Edit) : List Edit :=
  (List.range (source.utf8ByteSize + 1)).flatMap (arrivalsAt edits)

theorem mem_arrivalsAt : e ∈ arrivalsAt edits o ↔ e ∈ edits ∧ e.offset = o := by
  rw [arrivalsAt, List.mem_append, List.mem_filter, List.mem_filter]
  cases hins : e.isInsertion <;> simp

theorem mem_of_mem_arrange (h : e ∈ arrange source edits) : e ∈ edits := by
  obtain ⟨o, -, ho⟩ := List.mem_flatMap.mp h
  exact (mem_arrivalsAt.mp ho).1

theorem arrange_nil (source : String) : arrange source [] = [] :=
  List.flatMap_eq_nil_iff.mpr fun _ _ => rfl

/-! ## One more arrival -/

theorem arrivalsAt_concat_of_ne (h : e.offset ≠ o) :
    arrivalsAt (edits ++ [e]) o = arrivalsAt edits o := by
  have hoffset : (e.offset == o) = false := beq_eq_false_iff_ne.mpr h
  simp [arrivalsAt, List.filter_append, hoffset]

/-- At its own offset an arrival goes behind all that it does not precede. -/
theorem exists_arrivalsAt_concat (edits : List Edit) (e : Edit) :
    ∃ l m, arrivalsAt edits e.offset = l ++ m ∧ arrivalsAt (edits ++ [e]) e.offset = l ++ e :: m ∧
      (∀ d ∈ l, e.precedes d = false) ∧ ∀ d ∈ m, e.precedes d = true := by
  by_cases he : e.isInsertion = true
  · refine ⟨_, _, rfl, ?_, fun d hd => ?_, fun d hd => ?_⟩
    · simp [arrivalsAt, List.filter_append, he]
    · have hd := (List.mem_filter.mp hd).2
      rw [Bool.and_eq_true, beq_iff_eq, isInsertion_iff] at hd
      rw [Bool.eq_false_iff, ne_eq, precedes_iff]
      omega
    · have hd := (List.mem_filter.mp hd).2
      rw [Bool.and_eq_true, beq_iff_eq, Bool.not_eq_true', Bool.eq_false_iff, ne_eq,
        isInsertion_iff] at hd
      rw [isInsertion_iff] at he
      rw [precedes_iff]
      omega
  · refine ⟨arrivalsAt edits e.offset, [], (List.append_nil _).symm, ?_, fun d hd => ?_,
      fun d hd => absurd hd List.not_mem_nil⟩
    · simp [arrivalsAt, List.filter_append, he]
    · have hd := (mem_arrivalsAt.mp hd).2
      rw [isInsertion_iff] at he
      rw [Bool.eq_false_iff, ne_eq, precedes_iff]
      omega

/-- **One more arrival goes behind all that it does not precede.** -/
theorem exists_arrange_concat (edits : List Edit) (h : e.offset ≤ source.utf8ByteSize) :
    ∃ l m, arrange source edits = l ++ m ∧ arrange source (edits ++ [e]) = l ++ e :: m ∧
      (∀ d ∈ l, e.precedes d = false) ∧ ∀ d ∈ m, e.precedes d = true := by
  obtain ⟨l, m, hold, hnew, hl, hm⟩ := exists_arrivalsAt_concat edits e
  -- the offsets in front of the arrival, its own, and those behind
  obtain ⟨n, hn⟩ : ∃ n, source.utf8ByteSize + 1 = e.offset + (1 + n) :=
    ⟨source.utf8ByteSize - e.offset, by omega⟩
  have hcut : ∀ f : Nat → List Edit, (List.range (source.utf8ByteSize + 1)).flatMap f =
      (List.range e.offset).flatMap f ++ (f e.offset ++
        (List.range n).flatMap fun k => f (e.offset + (1 + k))) := fun f => by
    rw [hn, List.range_add, List.range_add, List.flatMap_append, List.map_append,
      List.flatMap_append, List.map_map, List.flatMap_map, List.flatMap_map, List.range_one,
      List.flatMap_singleton, Nat.add_zero]
    rfl
  have hbefore : (List.range e.offset).flatMap (arrivalsAt (edits ++ [e])) =
      (List.range e.offset).flatMap (arrivalsAt edits) :=
    List.flatMap_congr fun o ho => arrivalsAt_concat_of_ne (Nat.ne_of_gt (List.mem_range.mp ho))
  have hbehind : ((List.range n).flatMap fun k => arrivalsAt (edits ++ [e]) (e.offset + (1 + k))) =
      (List.range n).flatMap fun k => arrivalsAt edits (e.offset + (1 + k)) :=
    List.flatMap_congr fun k _ => arrivalsAt_concat_of_ne (by omega)
  refine ⟨(List.range e.offset).flatMap (arrivalsAt edits) ++ l,
    m ++ (List.range n).flatMap fun k => arrivalsAt edits (e.offset + (1 + k)), ?_, ?_,
    fun d hd => ?_, fun d hd => ?_⟩
  · rw [arrange, hcut, hold]
    simp only [List.append_assoc]
  · rw [arrange, hcut, hbefore, hbehind, hnew]
    simp only [List.append_assoc, List.cons_append]
  · rcases List.mem_append.mp hd with hd | hd
    · obtain ⟨o, ho, hd⟩ := List.mem_flatMap.mp hd
      have ho := List.mem_range.mp ho
      have hoffset := (mem_arrivalsAt.mp hd).2
      rw [Bool.eq_false_iff, ne_eq, precedes_iff]
      omega
    · exact hl d hd
  · rcases List.mem_append.mp hd with hd | hd
    · exact hm d hd
    · obtain ⟨k, -, hd⟩ := List.mem_flatMap.mp hd
      have hoffset := (mem_arrivalsAt.mp hd).2
      rw [precedes_iff]
      omega

/-- The two parts of a list of which only the second passes a test are found by the test. -/
theorem filter_of_cut {f : Edit → Bool} (hl : ∀ d ∈ l, f d = false) (hm : ∀ d ∈ m, f d = true) :
    (l ++ m).filter (fun d => !f d) = l ∧ (l ++ m).filter f = m := by
  rw [List.filter_append, List.filter_append]
  refine ⟨?_, ?_⟩
  · rw [List.filter_eq_self.mpr fun d hd => by rw [hl d hd]; rfl,
      List.filter_eq_nil_iff.mpr fun d hd => by rw [hm d hd]; decide, List.append_nil]
  · rw [List.filter_eq_nil_iff.mpr fun d hd => by rw [hl d hd]; decide,
      List.filter_eq_self.mpr hm, List.nil_append]

/-- **Where one more arrival goes**, when the list is cut into what it does not precede and what it
does. -/
theorem arrange_concat_eq (h : e.offset ≤ source.utf8ByteSize)
    (hcut : arrange source edits = l ++ m) (hl : ∀ d ∈ l, e.precedes d = false)
    (hm : ∀ d ∈ m, e.precedes d = true) : arrange source (edits ++ [e]) = l ++ e :: m := by
  obtain ⟨l', m', hcut', hconcat, hl', hm'⟩ := exists_arrange_concat edits h
  have hsame := filter_of_cut hl hm
  rw [← hcut, hcut', (filter_of_cut hl' hm').1, (filter_of_cut hl' hm').2] at hsame
  rw [hconcat, hsame.1, hsame.2]

end ProbeWeaver.Edit
