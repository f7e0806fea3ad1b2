import ProbeWeaver.Proofs.Rule.Offers
import ProbeWeaver.Proofs.Rule.Visits

/-!
# Proofs/Rule/Order — one visit for each main node, inner ones first

A rule has one match for each main node at most, and an ordered choice gives each main node to one
rule; what a pass visits is sorted by the spans of the main nodes (`Pass.postOrder_visits`).
-/

namespace ProbeWeaver

variable {u : SourceUnit} {phase : Phase} {vs : List Visit} {base index : Nat} {r : Rule}

/-- **The main nodes differ** from visit to visit. -/
def Visit.Apart (vs : List Visit) : Prop :=
  vs.Pairwise fun v w => v.found.root.sameAs w.found.root = false

/-! ## Matches of a rule -/

theorem Rule.apart_firstPerRoot : ∀ fs : List Finding,
    (firstPerRoot fs).Pairwise fun f g => f.root.sameAs g.root = false
  | [] => .nil
  | f :: fs => by
      rw [firstPerRoot]
      refine List.pairwise_cons.mpr ⟨fun g hg => ?_, (apart_firstPerRoot fs).filter _⟩
      have hne := (List.mem_filter.mp hg).2
      rw [Bool.not_eq_true', Node.sameAs] at hne
      rw [Node.sameAs, ← hne]
      exact Bool.beq_comm

theorem Rule.root_of_accept? {found : Finding} {m : Match} (h : r.accept? u found = some m) :
    m.root = found.root := by
  obtain ⟨m₀, hbind, h⟩ := Option.bind_eq_some_iff.mp h
  split at h
  · rw [← Option.some.inj h, root_of_bindAll hbind]
  · contradiction

theorem Rule.apart_matchesIn {ms : List Match} (h : r.matchesIn u = .ok ms) :
    ms.Pairwise fun m m' => m.root.sameAs m'.root = false := by
  rw [matchesIn] at h
  split at h
  · obtain rfl := Except.ok.inj h
    refine List.Pairwise.filterMap _ (fun f g hne m hm m' hm' => ?_) (apart_firstPerRoot _)
    rw [root_of_accept? hm, root_of_accept? hm']
    exact hne
  · contradiction

namespace RuleSet

/-! ## Visits of a rule set -/

theorem apart_visitsOf (h : visitsOf u phase r index = .ok vs) : Visit.Apart vs := by
  rw [visitsOf] at h
  split at h
  · obtain ⟨ms, hms, h⟩ := bind_eq_ok_iff.mp h
    obtain rfl := Except.ok.inj h
    exact List.pairwise_map.mpr (Rule.apart_matchesIn hms)
  · obtain rfl := Except.ok.inj h
    exact .nil

/-- **An ordered choice** gives each main node to one rule, and none that is taken. -/
theorem apart_visitsOfFirst : ∀ {rules : List Rule} {taken vs : List Visit} {index : Nat},
    visitsOfFirst u phase taken rules index = .ok vs →
      Visit.Apart vs ∧ ∀ v ∈ vs, claims taken v.found.root = false
  | [], _, _, _, h => by
      obtain rfl := Except.ok.inj h
      exact ⟨.nil, fun v hv => absurd hv List.not_mem_nil⟩
  | rule :: rules, taken, vs, index, h => by
      obtain ⟨all, hall, h⟩ := bind_eq_ok_iff.mp h
      obtain ⟨rest, hrest, h⟩ := bind_eq_ok_iff.mp h
      obtain rfl := Except.ok.inj h
      obtain ⟨hapart, hfree⟩ := apart_visitsOfFirst hrest
      refine ⟨List.pairwise_append.mpr ⟨(apart_visitsOf hall).filter _, hapart,
        fun v hv w hw => ?_⟩, fun v hv => ?_⟩
      · exact Bool.eq_false_iff.mpr fun hsame => Bool.eq_false_iff.mp (hfree w hw)
          (List.any_eq_true.mpr ⟨v, List.mem_append_right _ hv, hsame⟩)
      · rcases List.mem_append.mp hv with hv | hv
        · exact (Bool.not_eq_true' _).mp (List.mem_filter.mp hv).2
        · refine Bool.eq_false_iff.mpr fun htaken => Bool.eq_false_iff.mp (hfree v hv) ?_
          obtain ⟨w, hw, hsame⟩ := List.any_eq_true.mp htaken
          exact List.any_eq_true.mpr ⟨w, List.mem_append_left _ hw, hsame⟩

end RuleSet

/-! ## Visits of a pass -/

namespace Pass

/-- **Sets about different main nodes**, each of which visits a main node once. -/
theorem apart_visitsFrom : ∀ {sets : List RuleSet} {base : Nat} {vs : List Visit},
    (∀ s ∈ sets, ∀ base vs, s.visits u phase base = .ok vs → Visit.Apart vs) →
      sets.Pairwise (fun s s' => ∀ v w : Visit, v.IsFrom u s.rules → w.IsFrom u s'.rules →
        v.found.root.sameAs w.found.root = false) →
          visitsFrom u phase sets base = .ok vs → Visit.Apart vs
  | [], _, _, _, _, h => by
      obtain rfl := Except.ok.inj h
      exact .nil
  | s :: ss, base, vs, hsets, hpairs, h => by
      obtain ⟨front, hfront, h⟩ := bind_eq_ok_iff.mp h
      obtain ⟨rest, hrest, h⟩ := bind_eq_ok_iff.mp h
      obtain rfl := Except.ok.inj h
      obtain ⟨hothers, hpairs⟩ := List.pairwise_cons.mp hpairs
      refine List.pairwise_append.mpr ⟨hsets s List.mem_cons_self base front hfront,
        apart_visitsFrom (fun s' hs' => hsets s' (List.mem_cons_of_mem s hs')) hpairs hrest,
        fun v hv w hw => ?_⟩
      obtain ⟨hrule, hfound⟩ := mem_visitsFrom hrest hw
      obtain ⟨s', hs', hrule⟩ := List.mem_flatMap.mp hrule
      exact hothers s' hs' v w (RuleSet.mem_visits s hfront hv) ⟨hrule, hfound⟩

end Pass

theorem Visit.postOrderLe_iff {v w : Visit} : v.postOrderLe w = true ↔
    v.found.root.stop < w.found.root.stop ∨ v.found.root.stop = w.found.root.stop ∧
      (w.found.root.start < v.found.root.start ∨ v.found.root.start = w.found.root.start ∧
        v.index ≤ w.index) := by
  simp only [postOrderLe, Bool.or_eq_true, Bool.and_eq_true, decide_eq_true_eq, beq_iff_eq]
  rfl

/-- **Inner nodes come first**: a node that ends later, or ends there and starts earlier, is not
visited before. -/
theorem Pass.postOrder_visits {p : Pass} (horder : p.order = .postOrder)
    (h : p.visits u phase = .ok vs) : vs.Pairwise fun v w => v.postOrderLe w = true := by
  obtain ⟨ws, -, h⟩ := bind_eq_ok_iff.mp h
  obtain rfl := Except.ok.inj h
  rw [horder]
  refine List.pairwise_mergeSort (fun a b c hab hbc => ?_) (fun a b => ?_) ws
  · rw [Visit.postOrderLe_iff] at *
    omega
  · rw [Bool.or_eq_true_iff, Visit.postOrderLe_iff, Visit.postOrderLe_iff]
    omega

theorem Visit.preOrderLe_iff {v w : Visit} : v.preOrderLe w = true ↔
    v.found.root.start < w.found.root.start ∨ v.found.root.start = w.found.root.start ∧
      (w.found.root.stop < v.found.root.stop ∨ v.found.root.stop = w.found.root.stop ∧
        v.index ≤ w.index) := by
  simp only [preOrderLe, Bool.or_eq_true, Bool.and_eq_true, decide_eq_true_eq, beq_iff_eq]
  rfl

/-- **Outer nodes come first**: a node that starts later, or starts there and ends earlier, is not
visited before. -/
theorem Pass.preOrder_visits {p : Pass} (horder : p.order = .preOrder)
    (h : p.visits u phase = .ok vs) : vs.Pairwise fun v w => v.preOrderLe w = true := by
  obtain ⟨ws, -, h⟩ := bind_eq_ok_iff.mp h
  obtain rfl := Except.ok.inj h
  rw [horder]
  refine List.pairwise_mergeSort (fun a b c hab hbc => ?_) (fun a b => ?_) ws
  · rw [Visit.preOrderLe_iff] at *
    omega
  · rw [Bool.or_eq_true_iff, Visit.preOrderLe_iff, Visit.preOrderLe_iff]
    omega

/-- Sorting leaves main nodes apart. -/
theorem Visit.Apart.sort {order : VisitOrder} (h : Visit.Apart vs) :
    Visit.Apart (order.sort vs) := by
  have hperm : (order.sort vs).Perm vs := by
    cases order <;> exact List.mergeSort_perm vs _
  refine (hperm.pairwise_iff fun {v w} hne => ?_).mpr h
  rw [Node.sameAs] at hne ⊢
  rw [← hne]
  exact Bool.beq_comm

/-- **A pass whose last rule runs in another phase** visits each main node once, if its other sets
do. -/
theorem Pass.apart_visits {p : Pass} {sets : List RuleSet} (h : p.visits u phase = .ok vs)
    (hsets : p.sets = sets ++ [.single r]) (hphase : r.phase ≠ phase)
    (heach : ∀ s ∈ sets, ∀ base vs, s.visits u phase base = .ok vs → Visit.Apart vs)
    (hpairs : sets.Pairwise fun s s' => ∀ v w : Visit, v.IsFrom u s.rules → w.IsFrom u s'.rules →
      v.found.root.sameAs w.found.root = false) : Visit.Apart vs := by
  obtain ⟨ws, hws, h⟩ := bind_eq_ok_iff.mp h
  obtain rfl := Except.ok.inj h
  refine Visit.Apart.sort ?_
  rw [hsets] at hws
  obtain ⟨front, base, rest, hfront, hrest, rfl⟩ := Pass.exists_of_visitsFrom_append hws
  have hnone : rest = [] := List.eq_nil_iff_forall_not_mem.mpr fun v hv => by
    have hrule := (Pass.mem_visitsFrom hrest hv).1
    rw [List.flatMap_singleton, RuleSet.rules, List.mem_singleton] at hrule
    exact hphase (hrule ▸ Pass.phase_of_mem_visitsFrom hrest hv)
  rw [hnone, List.append_nil]
  exact Pass.apart_visitsFrom heach hpairs hfront

end ProbeWeaver
