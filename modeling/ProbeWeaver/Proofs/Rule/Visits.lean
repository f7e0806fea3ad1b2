import ProbeWeaver.Proofs.Outcome
import ProbeWeaver.Rule.Pass

/-!
# Proofs/Rule/Visits — a visit is a match of one of the rules

However rules are combined, the visits of a set or of a pass are matches of its rules
(`RuleSet.mem_visits`, `Pass.mem_visits`), in the phase of these rules
(`Pass.phase_of_mem_visits`), and they can be listed when each rule can list its
matches (`RuleSet.exists_visits`, `Pass.exists_visits`).
-/

namespace ProbeWeaver

variable {u : SourceUnit} {phase : Phase} {v : Visit} {vs : List Visit} {base index : Nat}

/-- **The visit is a match of one of the rules.** -/
def Visit.IsFrom (v : Visit) (u : SourceUnit) (rules : List Rule) : Prop :=
  v.rule ∈ rules ∧ ∃ ms, v.rule.matchesIn u = .ok ms ∧ v.found ∈ ms

theorem Visit.IsFrom.mono {rules rules' : List Rule} (h : v.IsFrom u rules)
    (hsub : ∀ r ∈ rules, r ∈ rules') : v.IsFrom u rules' :=
  ⟨hsub v.rule h.1, h.2⟩

/-- The rule can list its matches. -/
def Rule.IsUsable (r : Rule) (u : SourceUnit) : Prop := ∃ ms, r.matchesIn u = .ok ms

namespace RuleSet

/-! ## Visits are matches -/

theorem mem_visitsOf {rule : Rule} (h : visitsOf u phase rule index = .ok vs) (hv : v ∈ vs) :
    v.IsFrom u [rule] := by
  rw [visitsOf] at h
  split at h
  · obtain ⟨ms, hms, h⟩ := bind_eq_ok_iff.mp h
    obtain rfl := Except.ok.inj h
    obtain ⟨m, hm, rfl⟩ := List.mem_map.mp hv
    exact ⟨List.mem_singleton.mpr rfl, ms, hms, hm⟩
  · obtain rfl := Except.ok.inj h
    exact absurd hv List.not_mem_nil

theorem mem_visitsOfFirst : ∀ {rules : List Rule} {taken vs : List Visit} {index : Nat},
    visitsOfFirst u phase taken rules index = .ok vs → v ∈ vs → v.IsFrom u rules
  | [], _, _, _, h, hv => by
      obtain rfl := Except.ok.inj h
      exact absurd hv List.not_mem_nil
  | rule :: rules, taken, vs, index, h, hv => by
      obtain ⟨mine, hmine, h⟩ := bind_eq_ok_iff.mp h
      obtain ⟨rest, hrest, h⟩ := bind_eq_ok_iff.mp h
      obtain rfl := Except.ok.inj h
      rcases List.mem_append.mp hv with hv | hv
      · refine (mem_visitsOf hmine (List.mem_filter.mp hv).1).mono fun r hr => ?_
        rw [List.mem_singleton.mp hr]
        exact List.mem_cons_self
      · exact (mem_visitsOfFirst hrest hv).mono fun r hr => List.mem_cons_of_mem rule hr

mutual

/-- **The visits of a rule set** are matches of its rules. -/
theorem mem_visits : ∀ (s : RuleSet) {base : Nat} {vs : List Visit},
    s.visits u phase base = .ok vs → v ∈ vs → v.IsFrom u s.rules
  | .single rule, _, _, h, hv => by
      rw [visits] at h
      rw [rules]
      exact mem_visitsOf h hv
  | .all sets, _, _, h, hv => by
      rw [visits] at h
      rw [rules]
      exact mem_visitsOfAll sets h hv
  | .firstOf rules, _, _, h, hv => by
      rw [visits] at h
      rw [RuleSet.rules]
      exact mem_visitsOfFirst h hv

theorem mem_visitsOfAll : ∀ (sets : List RuleSet) {base : Nat} {vs : List Visit},
    visitsOfAll u phase sets base = .ok vs → v ∈ vs → v.IsFrom u (rulesOfAll sets)
  | [], _, _, h, hv => by
      rw [visitsOfAll] at h
      obtain rfl := Except.ok.inj h
      exact absurd hv List.not_mem_nil
  | s :: ss, _, _, h, hv => by
      rw [visitsOfAll] at h
      obtain ⟨front, hfront, h⟩ := bind_eq_ok_iff.mp h
      obtain ⟨rest, hrest, h⟩ := bind_eq_ok_iff.mp h
      obtain rfl := Except.ok.inj h
      rw [rulesOfAll]
      exact (List.mem_append.mp hv).elim
        (fun hv => (mem_visits s hfront hv).mono fun r hr => List.mem_append_left _ hr)
        (fun hv => (mem_visitsOfAll ss hrest hv).mono fun r hr => List.mem_append_right _ hr)

end

/-! ## Visits come in their phase -/

theorem phase_of_mem_visitsOf {rule : Rule} (h : visitsOf u phase rule index = .ok vs)
    (hv : v ∈ vs) : v.rule.phase = phase := by
  have hrule := List.mem_singleton.mp (mem_visitsOf h hv).1
  rw [visitsOf] at h
  split at h
  · next hphase => rwa [hrule]
  · obtain rfl := Except.ok.inj h
    exact absurd hv List.not_mem_nil

theorem phase_of_mem_visitsOfFirst : ∀ {rules : List Rule} {taken vs : List Visit} {index : Nat},
    visitsOfFirst u phase taken rules index = .ok vs → v ∈ vs → v.rule.phase = phase
  | [], _, _, _, h, hv => by
      obtain rfl := Except.ok.inj h
      exact absurd hv List.not_mem_nil
  | rule :: rules, taken, vs, index, h, hv => by
      obtain ⟨mine, hmine, h⟩ := bind_eq_ok_iff.mp h
      obtain ⟨rest, hrest, h⟩ := bind_eq_ok_iff.mp h
      obtain rfl := Except.ok.inj h
      rcases List.mem_append.mp hv with hv | hv
      · exact phase_of_mem_visitsOf hmine (List.mem_filter.mp hv).1
      · exact phase_of_mem_visitsOfFirst hrest hv

mutual

/-- **The visits of a rule set** are of rules that run in the phase. -/
theorem phase_of_mem_visits : ∀ (s : RuleSet) {base : Nat} {vs : List Visit},
    s.visits u phase base = .ok vs → v ∈ vs → v.rule.phase = phase
  | .single rule, _, _, h, hv => by
      rw [visits] at h
      exact phase_of_mem_visitsOf h hv
  | .all sets, _, _, h, hv => by
      rw [visits] at h
      exact phase_of_mem_visitsOfAll sets h hv
  | .firstOf rules, _, _, h, hv => by
      rw [visits] at h
      exact phase_of_mem_visitsOfFirst h hv

theorem phase_of_mem_visitsOfAll : ∀ (sets : List RuleSet) {base : Nat} {vs : List Visit},
    visitsOfAll u phase sets base = .ok vs → v ∈ vs → v.rule.phase = phase
  | [], _, _, h, hv => by
      rw [visitsOfAll] at h
      obtain rfl := Except.ok.inj h
      exact absurd hv List.not_mem_nil
  | s :: ss, _, _, h, hv => by
      rw [visitsOfAll] at h
      obtain ⟨front, hfront, h⟩ := bind_eq_ok_iff.mp h
      obtain ⟨rest, hrest, h⟩ := bind_eq_ok_iff.mp h
      obtain rfl := Except.ok.inj h
      exact (List.mem_append.mp hv).elim (phase_of_mem_visits s hfront)
        (phase_of_mem_visitsOfAll ss hrest)

end

/-! ## Visits can be listed -/

theorem exists_visitsOf {rule : Rule} (h : rule.IsUsable u) (phase : Phase) (index : Nat) :
    ∃ vs, visitsOf u phase rule index = .ok vs := by
  obtain ⟨ms, hms⟩ := h
  rw [visitsOf]
  split
  · exact ⟨_, by rw [hms]; rfl⟩
  · exact ⟨[], rfl⟩

theorem exists_visitsOfFirst : ∀ {rules : List Rule}, (∀ r ∈ rules, r.IsUsable u) →
    ∀ (taken : List Visit) (index : Nat), ∃ vs, visitsOfFirst u phase taken rules index = .ok vs
  | [], _, _, _ => ⟨[], rfl⟩
  | rule :: rules, h, taken, index => by
      obtain ⟨mine, hmine⟩ := exists_visitsOf (h rule List.mem_cons_self) phase index
      obtain ⟨rest, hrest⟩ := exists_visitsOfFirst
        (fun r hr => h r (List.mem_cons_of_mem rule hr))
        (taken ++ mine.filter fun v => !claims taken v.found.root) (index + 1)
      exact ⟨_, bind_eq_ok_iff.mpr ⟨mine, hmine, bind_eq_ok_iff.mpr ⟨rest, hrest, rfl⟩⟩⟩

mutual

/-- **The visits of a rule set** can be listed when its rules are usable. -/
theorem exists_visits : ∀ (s : RuleSet), (∀ r ∈ s.rules, r.IsUsable u) →
    ∀ base, ∃ vs, s.visits u phase base = .ok vs
  | .single rule, h, base => by
      rw [visits]
      exact exists_visitsOf (h rule (by rw [rules]; exact List.mem_cons_self)) phase base
  | .all sets, h, base => by
      rw [visits]
      exact exists_visitsOfAll sets (fun r hr => h r (by rw [rules]; exact hr)) base
  | .firstOf rules, h, base => by
      rw [visits]
      exact exists_visitsOfFirst (fun r hr => h r (by rw [RuleSet.rules]; exact hr)) [] base

theorem exists_visitsOfAll : ∀ (sets : List RuleSet), (∀ r ∈ rulesOfAll sets, r.IsUsable u) →
    ∀ base, ∃ vs, visitsOfAll u phase sets base = .ok vs
  | [], _, _ => ⟨[], by rw [visitsOfAll]⟩
  | s :: ss, h, base => by
      rw [rulesOfAll] at h
      obtain ⟨front, hfront⟩ :=
        exists_visits s (fun r hr => h r (List.mem_append_left _ hr)) base
      obtain ⟨rest, hrest⟩ :=
        exists_visitsOfAll ss (fun r hr => h r (List.mem_append_right _ hr)) (base + s.length)
      rw [visitsOfAll]
      exact ⟨_, bind_eq_ok_iff.mpr ⟨front, hfront, bind_eq_ok_iff.mpr ⟨rest, hrest, rfl⟩⟩⟩

end

/-- **A match of a rule in an ordered choice** is visited, if its main node goes to no rule before. -/
theorem exists_mem_visitsOfFirst {r : Rule} {after : List Rule} {ms : List Match} {m : Match}
    (hphase : r.phase = phase) (hms : r.matchesIn u = .ok ms) (hm : m ∈ ms) :
    ∀ {before : List Rule} {taken vs : List Visit} {index : Nat},
      visitsOfFirst u phase taken (before ++ r :: after) index = .ok vs →
        claims taken m.root = false →
          (∀ s ∈ before, ∀ others, s.matchesIn u = .ok others →
            ∀ m' ∈ others, m'.root.sameAs m.root = false) → ∃ i, (⟨r, i, m⟩ : Visit) ∈ vs
  | [], taken, vs, index, h, hfree, _ => by
      obtain ⟨mine, hmine, h⟩ := bind_eq_ok_iff.mp h
      obtain ⟨rest, -, h⟩ := bind_eq_ok_iff.mp h
      obtain rfl := Except.ok.inj h
      rw [visitsOf, if_pos hphase, hms] at hmine
      obtain rfl := Except.ok.inj hmine
      refine ⟨index, List.mem_append_left rest (List.mem_filter.mpr ⟨List.mem_map_of_mem hm, ?_⟩)⟩
      rw [hfree]
      rfl
  | s :: before, taken, vs, index, h, hfree, hbefore => by
      obtain ⟨mine, hmine, h⟩ := bind_eq_ok_iff.mp h
      obtain ⟨rest, hrest, h⟩ := bind_eq_ok_iff.mp h
      obtain rfl := Except.ok.inj h
      have hmineFree : claims (mine.filter fun v => !claims taken v.found.root) m.root = false := by
        rw [claims, List.any_eq_false]
        intro v hv
        obtain ⟨hrule, others, hothers, hfound⟩ := mem_visitsOf hmine (List.mem_filter.mp hv).1
        rw [List.mem_singleton.mp hrule] at hothers
        rw [hbefore s List.mem_cons_self others hothers v.found hfound]
        exact Bool.false_ne_true
      obtain ⟨i, hi⟩ := exists_mem_visitsOfFirst hphase hms hm hrest
        (by rw [claims, List.any_append, ← claims, ← claims, hfree, hmineFree, Bool.or_false])
        fun s' hs' => hbefore s' (List.mem_cons_of_mem s hs')
      exact ⟨i, List.mem_append_right _ hi⟩

end RuleSet

/-! ## Passes -/

namespace Pass

/-- The rules of a pass. -/
def rules (p : Pass) : List Rule := p.sets.flatMap (·.rules)

theorem mem_visitsFrom : ∀ {sets : List RuleSet} {base : Nat} {vs : List Visit},
    visitsFrom u phase sets base = .ok vs → v ∈ vs → v.IsFrom u (sets.flatMap (·.rules))
  | [], _, _, h, hv => by
      obtain rfl := Except.ok.inj h
      exact absurd hv List.not_mem_nil
  | s :: ss, _, _, h, hv => by
      obtain ⟨front, hfront, h⟩ := bind_eq_ok_iff.mp h
      obtain ⟨rest, hrest, h⟩ := bind_eq_ok_iff.mp h
      obtain rfl := Except.ok.inj h
      rw [List.flatMap_cons]
      rcases List.mem_append.mp hv with hv | hv
      · exact (RuleSet.mem_visits s hfront hv).mono fun r hr => List.mem_append_left _ hr
      · exact (mem_visitsFrom hrest hv).mono fun r hr => List.mem_append_right _ hr

theorem exists_visitsFrom : ∀ {sets : List RuleSet},
    (∀ r ∈ sets.flatMap (·.rules), r.IsUsable u) →
      ∀ base, ∃ vs, visitsFrom u phase sets base = .ok vs
  | [], _, _ => ⟨[], rfl⟩
  | s :: ss, h, base => by
      rw [List.flatMap_cons] at h
      obtain ⟨front, hfront⟩ :=
        RuleSet.exists_visits s (fun r hr => h r (List.mem_append_left _ hr)) base
      obtain ⟨rest, hrest⟩ :=
        exists_visitsFrom (fun r hr => h r (List.mem_append_right _ hr)) (base + s.length)
      exact ⟨_, bind_eq_ok_iff.mpr ⟨front, hfront, bind_eq_ok_iff.mpr ⟨rest, hrest, rfl⟩⟩⟩

theorem mem_sort {order : VisitOrder} : v ∈ order.sort vs ↔ v ∈ vs := by
  cases order <;> exact List.mem_mergeSort

/-- **The visits of a pass** are matches of its rules. -/
theorem mem_visits {p : Pass} (h : p.visits u phase = .ok vs) (hv : v ∈ vs) :
    v.IsFrom u p.rules := by
  obtain ⟨ws, hws, h⟩ := bind_eq_ok_iff.mp h
  obtain rfl := Except.ok.inj h
  exact mem_visitsFrom hws (mem_sort.mp hv)

theorem phase_of_mem_visitsFrom : ∀ {sets : List RuleSet} {base : Nat} {vs : List Visit},
    visitsFrom u phase sets base = .ok vs → v ∈ vs → v.rule.phase = phase
  | [], _, _, h, hv => by
      obtain rfl := Except.ok.inj h
      exact absurd hv List.not_mem_nil
  | s :: ss, _, _, h, hv => by
      obtain ⟨front, hfront, h⟩ := bind_eq_ok_iff.mp h
      obtain ⟨rest, hrest, h⟩ := bind_eq_ok_iff.mp h
      obtain rfl := Except.ok.inj h
      exact (List.mem_append.mp hv).elim (RuleSet.phase_of_mem_visits s hfront)
        (phase_of_mem_visitsFrom hrest)

/-- **The visits of a pass** are of rules that run in the phase. -/
theorem phase_of_mem_visits {p : Pass} (h : p.visits u phase = .ok vs) (hv : v ∈ vs) :
    v.rule.phase = phase := by
  obtain ⟨ws, hws, h⟩ := bind_eq_ok_iff.mp h
  obtain rfl := Except.ok.inj h
  exact phase_of_mem_visitsFrom hws (mem_sort.mp hv)

/-- Visits of sets in front of others. -/
theorem exists_of_visitsFrom_append : ∀ {sets more : List RuleSet} {base : Nat} {vs : List Visit},
    visitsFrom u phase (sets ++ more) base = .ok vs → ∃ front base' rest,
      visitsFrom u phase sets base = .ok front ∧ visitsFrom u phase more base' = .ok rest ∧
        vs = front ++ rest
  | [], _, base, vs, h => ⟨[], base, vs, rfl, h, rfl⟩
  | s :: ss, _, _, _, h => by
      obtain ⟨first, hfirst, h⟩ := bind_eq_ok_iff.mp h
      obtain ⟨others, hothers, h⟩ := bind_eq_ok_iff.mp h
      obtain rfl := Except.ok.inj h
      obtain ⟨front, base', rest, hfront, hrest, rfl⟩ := exists_of_visitsFrom_append hothers
      refine ⟨first ++ front, base', rest, ?_, hrest, (List.append_assoc ..).symm⟩
      exact bind_eq_ok_iff.mpr ⟨first, hfirst, bind_eq_ok_iff.mpr ⟨front, hfront, rfl⟩⟩

theorem exists_visits_of_mem {s : RuleSet} : ∀ {sets : List RuleSet} {base : Nat} {vs : List Visit},
    visitsFrom u phase sets base = .ok vs → s ∈ sets →
      ∃ base' ws, s.visits u phase base' = .ok ws ∧ ∀ v ∈ ws, v ∈ vs
  | _ :: _, base, _, h, hs => by
      obtain ⟨front, hfront, h⟩ := bind_eq_ok_iff.mp h
      obtain ⟨rest, hrest, h⟩ := bind_eq_ok_iff.mp h
      obtain rfl := Except.ok.inj h
      rcases List.mem_cons.mp hs with rfl | hs
      · exact ⟨base, front, hfront, fun v hv => List.mem_append_left rest hv⟩
      · obtain ⟨base', ws, hws, hmem⟩ := exists_visits_of_mem hrest hs
        exact ⟨base', ws, hws, fun v hv => List.mem_append_right front (hmem v hv)⟩

/-- **The visits of each set** are visits of the pass. -/
theorem exists_visits_of_mem_sets {p : Pass} {s : RuleSet} (h : p.visits u phase = .ok vs)
    (hs : s ∈ p.sets) : ∃ base ws, s.visits u phase base = .ok ws ∧ ∀ v ∈ ws, v ∈ vs := by
  obtain ⟨all, hall, h⟩ := bind_eq_ok_iff.mp h
  obtain rfl := Except.ok.inj h
  obtain ⟨base, ws, hws, hmem⟩ := exists_visits_of_mem hall hs
  exact ⟨base, ws, hws, fun v hv => mem_sort.mpr (hmem v hv)⟩

/-- **Every match of a rule that stands alone** is visited in the phase of the rule. -/
theorem exists_mem_visits {p : Pass} {r : Rule} {ms : List Match} {m : Match}
    (h : p.visits u r.phase = .ok vs) (hr : .single r ∈ p.sets) (hms : r.matchesIn u = .ok ms)
    (hm : m ∈ ms) : ∃ index, (⟨r, index, m⟩ : Visit) ∈ vs := by
  obtain ⟨base, ws, hws, hmem⟩ := exists_visits_of_mem_sets h hr
  rw [RuleSet.visits, RuleSet.visitsOf, if_pos rfl, hms] at hws
  obtain rfl := Except.ok.inj hws
  exact ⟨base, hmem _ (List.mem_map_of_mem hm)⟩

/-- **The visits of a pass** can be listed when its rules are usable. -/
theorem exists_visits {p : Pass} (h : ∀ r ∈ p.rules, r.IsUsable u) (phase : Phase) :
    ∃ vs, p.visits u phase = .ok vs := by
  obtain ⟨ws, hws⟩ := exists_visitsFrom h 0
  exact ⟨p.order.sort ws, bind_eq_ok_iff.mpr ⟨ws, hws, rfl⟩⟩

end Pass

end ProbeWeaver
