import ProbeWeaver.Proofs.Rule.Order

/-!
# Proofs/Rule/Choices — what a rule set visits, rule by rule

However rule sets are nested, they come to a list of choices: each rule belongs to one, and a rule
that stands alone is a choice of its own (`RuleSet.choices`).  The visits of a choice are numbered
block by block, a rule having one number, and a match is left out when the main node goes to a rule
of the choice before (`Rule.visitsBehind`).

* `visits_eq_ok_iff_fires` — the list of visits of a rule set, and that of a pass, is the one list
  that `Fires` describes.
-/

namespace ProbeWeaver

variable {u : SourceUnit} {phase : Phase} {n : Node} {r : Rule} {base index k : Nat} {v : Visit}
  {rs more before : List Rule} {vs ws taken : List Visit}

/-! ## Choices -/

mutual

/-- **The choices of a rule set**, in order; the members of each in order of preference. -/
def RuleSet.choices : RuleSet → List (List Rule)
  | .single r => [[r]]
  | .all sets => RuleSet.choicesOfAll sets
  | .firstOf rules => [rules]

/-- The choices of each set in turn. -/
def RuleSet.choicesOfAll : List RuleSet → List (List Rule)
  | [] => []
  | s :: ss => s.choices ++ RuleSet.choicesOfAll ss

end

/-- The choices of a pass. -/
def Pass.choices (p : Pass) : List (List Rule) := RuleSet.choicesOfAll p.sets

/-- The matches of a rule in a phase, if it runs in it. -/
def Rule.matchesDuring (r : Rule) (u : SourceUnit) (phase : Phase) : List Match :=
  if r.phase = phase then (r.matchesIn u).toOption.getD [] else []

/-- Some of the rules accepts the main node in the phase. -/
def someAccepts (u : SourceUnit) (phase : Phase) (rules : List Rule) (n : Node) : Bool :=
  rules.any fun r => (r.matchesDuring u phase).any (·.root.sameAs n)

/-- **The visits of a rule with other members of its choice before it**: its matches, but for the
main nodes that one of these accepts. -/
def Rule.visitsBehind (u : SourceUnit) (phase : Phase) (before : List Rule) (r : Rule)
    (index : Nat) : List Visit :=
  ((r.matchesDuring u phase).filter fun m => !someAccepts u phase before m.root).map fun m =>
    ⟨r, index, m⟩

mutual

theorem RuleSet.flatten_choices : ∀ s : RuleSet, s.choices.flatten = s.rules
  | .single r => by
      rw [choices, rules]
      rfl
  | .all sets => by rw [choices, rules, flatten_choicesOfAll]
  | .firstOf rules => by rw [choices, RuleSet.rules, List.flatten_singleton]

theorem RuleSet.flatten_choicesOfAll : ∀ ss : List RuleSet,
    (RuleSet.choicesOfAll ss).flatten = RuleSet.rulesOfAll ss
  | [] => by
      rw [choicesOfAll, rulesOfAll]
      rfl
  | s :: ss => by
      rw [choicesOfAll, rulesOfAll, List.flatten_append, flatten_choices, flatten_choicesOfAll]

end

theorem Pass.flatten_choices (p : Pass) : p.choices.flatten = p.rules := by
  rw [choices, RuleSet.flatten_choicesOfAll, rules]
  induction p.sets with
  | nil => rw [RuleSet.rulesOfAll, List.flatMap_nil]
  | cons s ss ih => rw [RuleSet.rulesOfAll, List.flatMap_cons, ih]

/-! ## Numbers -/

/-- **Visits tagged with the positions of their rules**, counted from `base` on. -/
structure Tagged (rules : List Rule) (base : Nat) (vs : List Visit) : Prop where
  placed : ∀ v ∈ vs, base ≤ v.index ∧ rules[v.index - base]? = some v.rule
  ascending : vs.Pairwise (·.index ≤ ·.index)

namespace Tagged

theorem nil : Tagged rs base [] := ⟨fun _ hv => absurd hv List.not_mem_nil, .nil⟩

theorem index_lt (h : Tagged rs base vs) (hv : v ∈ vs) : v.index < base + rs.length := by
  obtain ⟨hle, hrule⟩ := h.placed v hv
  have := (List.getElem?_eq_some_iff.mp hrule).1
  omega

/-- **Numbering goes on** from block to block. -/
theorem append (h : Tagged rs base vs) (hmore : Tagged more (base + rs.length) ws) :
    Tagged (rs ++ more) base (vs ++ ws) where
  placed := by
    intro v hv
    rcases List.mem_append.mp hv with hv | hv
    · obtain ⟨hle, hrule⟩ := h.placed v hv
      exact ⟨hle, by rw [List.getElem?_append_left (List.getElem?_eq_some_iff.mp hrule).1, hrule]⟩
    · obtain ⟨hle, hrule⟩ := hmore.placed v hv
      refine ⟨by omega, ?_⟩
      rw [List.getElem?_append_right (by omega), ← hrule]
      congr 1
      omega
  ascending := List.pairwise_append.mpr ⟨h.ascending, hmore.ascending, fun v hv w hw =>
    Nat.le_of_lt (Nat.lt_of_lt_of_le (h.index_lt hv) (hmore.placed w hw).1)⟩

/-- **A block of numbers** picks the visits of its rules. -/
theorem filter_eq {front mine back : List Visit} {last : List Rule} {inBlock : Visit → Bool}
    (hblock : ∀ v, inBlock v = true ↔
      base + rs.length ≤ v.index ∧ v.index < base + (rs ++ more).length)
    (hfront : Tagged rs base front) (hmine : Tagged more (base + rs.length) mine)
    (hback : Tagged last (base + (rs ++ more).length) back) :
    (front ++ mine ++ back).filter inBlock = mine := by
  have hlength : (rs ++ more).length = rs.length + more.length := List.length_append
  rw [List.filter_append, List.filter_append, List.filter_eq_nil_iff.mpr, List.filter_eq_self.mpr,
    List.filter_eq_nil_iff.mpr, List.nil_append, List.append_nil]
  · intro v hv
    have := (hback.placed v hv).1
    rw [hblock]
    omega
  · intro v hv
    have := (hmine.placed v hv).1
    have := hmine.index_lt hv
    rw [hblock]
    omega
  · intro v hv
    have := hfront.index_lt hv
    rw [hblock]
    omega

end Tagged

/-- **Lists in the order of their numbers** are equal when they have the same visits for each. -/
theorem eq_of_filter_index_eq : ∀ {vs ws : List Visit}, vs.Pairwise (·.index ≤ ·.index) →
    ws.Pairwise (·.index ≤ ·.index) →
      (∀ i, vs.filter (·.index == i) = ws.filter (·.index == i)) → vs = ws
  | [], [], _, _, _ => rfl
  | [], w :: ws, _, _, h => by simpa using h w.index
  | v :: vs, [], _, _, h => by simpa using h v.index
  | v :: vs, w :: ws, hvs, hws, h => by
      obtain ⟨hv, hvs'⟩ := List.pairwise_cons.mp hvs
      obtain ⟨hw, hws'⟩ := List.pairwise_cons.mp hws
      -- the first visit of either list has the least number that occurs
      have hle : v.index ≤ w.index := by
        have hmem : w ∈ (v :: vs).filter (·.index == w.index) := by
          rw [h w.index]
          simp
        rcases List.mem_cons.mp (List.mem_filter.mp hmem).1 with rfl | hmem
        · exact Nat.le_refl _
        · exact hv w hmem
      have hge : w.index ≤ v.index := by
        have hmem : v ∈ (w :: ws).filter (·.index == v.index) := by
          rw [← h v.index]
          simp
        rcases List.mem_cons.mp (List.mem_filter.mp hmem).1 with rfl | hmem
        · exact Nat.le_refl _
        · exact hw v hmem
      have hindex : w.index = v.index := Nat.le_antisymm hge hle
      obtain rfl : v = w := by
        have hfirst := h v.index
        rw [List.filter_cons_of_pos (by simp), List.filter_cons_of_pos (by simp [hindex])] at hfirst
        exact (List.cons.inj hfirst).1
      refine congrArg (v :: ·) (eq_of_filter_index_eq hvs' hws' fun i => ?_)
      have hi := h i
      rw [List.filter_cons, List.filter_cons] at hi
      split at hi
      · exact (List.cons.inj hi).2
      · exact hi

/-! ## The visits of choices -/

/-- The visits of a choice whose members in `before` have had theirs. -/
def visitsOfChoice (u : SourceUnit) (phase : Phase) : List Rule → List Rule → Nat → List Visit
  | _, [], _ => []
  | before, r :: rules, index => r.visitsBehind u phase before index ++
      visitsOfChoice u phase (before ++ [r]) rules (index + 1)

/-- The visits of each choice in turn. -/
def visitsOfChoices (u : SourceUnit) (phase : Phase) : List (List Rule) → Nat → List Visit
  | [], _ => []
  | rules :: choices, base => visitsOfChoice u phase [] rules base ++
      visitsOfChoices u phase choices (base + rules.length)

theorem visitsOfChoice_append : ∀ {before rules more : List Rule} {index : Nat},
    visitsOfChoice u phase before (rules ++ more) index =
      visitsOfChoice u phase before rules index ++
        visitsOfChoice u phase (before ++ rules) more (index + rules.length)
  | before, [], more, index => by
      rw [List.append_nil]
      rfl
  | before, r :: rules, more, index => by
      rw [List.cons_append, visitsOfChoice, visitsOfChoice, visitsOfChoice_append,
        List.append_assoc, List.append_assoc, List.singleton_append, List.length_cons,
        Nat.add_assoc, Nat.add_comm 1]

theorem visitsOfChoices_append : ∀ {choices others : List (List Rule)} {base : Nat},
    visitsOfChoices u phase (choices ++ others) base =
      visitsOfChoices u phase choices base ++
        visitsOfChoices u phase others (base + choices.flatten.length)
  | [], others, base => rfl
  | rules :: choices, others, base => by
      rw [List.cons_append, visitsOfChoices, visitsOfChoices, visitsOfChoices_append,
        List.append_assoc, List.flatten_cons, List.length_append, Nat.add_assoc]

theorem tagged_visitsBehind : Tagged [r] index (r.visitsBehind u phase before index) where
  placed := by
    intro v hv
    obtain ⟨m, -, rfl⟩ := List.mem_map.mp hv
    simp
  ascending := List.pairwise_map.mpr (List.pairwise_of_forall fun _ _ => Nat.le_refl index)

theorem tagged_visitsOfChoice : ∀ {before rules : List Rule} {index : Nat},
    Tagged rules index (visitsOfChoice u phase before rules index)
  | _, [], _ => .nil
  | _, _ :: _, _ => tagged_visitsBehind.append tagged_visitsOfChoice

theorem tagged_visitsOfChoices : ∀ {choices : List (List Rule)} {base : Nat},
    Tagged choices.flatten base (visitsOfChoices u phase choices base)
  | [], _ => .nil
  | _ :: _, _ => tagged_visitsOfChoice.append tagged_visitsOfChoices

/-! ## The visits that are listed -/

/-- Each rule that runs in the phase can list its matches. -/
def UsableDuring (u : SourceUnit) (phase : Phase) (rules : List Rule) : Prop :=
  ∀ r ∈ rules, r.phase = phase → r.IsUsable u

theorem usableDuring_append : UsableDuring u phase (rs ++ more) ↔
    UsableDuring u phase rs ∧ UsableDuring u phase more := List.forall_mem_append

namespace RuleSet

theorem visitsOf_eq_ok_iff : visitsOf u phase r index = .ok vs ↔ UsableDuring u phase [r] ∧
    vs = (r.matchesDuring u phase).map fun m => ⟨r, index, m⟩ := by
  rw [UsableDuring, List.forall_mem_singleton, visitsOf, Rule.matchesDuring, Rule.IsUsable]
  split
  · next hphase =>
    constructor
    · intro h
      obtain ⟨ms, hms, h⟩ := bind_eq_ok_iff.mp h
      rw [hms]
      exact ⟨fun _ => ⟨ms, rfl⟩, (Except.ok.inj h).symm⟩
    · rintro ⟨husable, rfl⟩
      obtain ⟨ms, hms⟩ := husable hphase
      rw [hms]
      rfl
  · next hphase =>
    exact ⟨fun h => ⟨fun h' => absurd h' hphase, (Except.ok.inj h).symm⟩,
      fun h => congrArg Except.ok h.2.symm⟩

/-- At first no main node is taken. -/
theorem claims_nil (u : SourceUnit) (phase : Phase) (n : Node) :
    claims [] n = someAccepts u phase [] n := rfl

/-- Visits claim a main node or they do not, whichever node names it. -/
theorem claims_congr {m : Node} (h : m.sameAs n = true) : claims taken m = claims taken n := by
  rw [Node.sameAs, beq_iff_eq] at h
  simp only [claims, Node.sameAs, h]

/-- **What is taken after one more rule** is what this rule or one before it accepts. -/
theorem claims_append_visitsBehind (htaken : ∀ n, claims taken n = someAccepts u phase before n)
    (n : Node) : claims (taken ++ r.visitsBehind u phase before index) n =
      someAccepts u phase (before ++ [r]) n := by
  rw [claims, List.any_append, ← claims, ← claims, someAccepts, List.any_append, ← someAccepts,
    htaken]
  cases hbefore : someAccepts u phase before n with
  | true => rfl
  | false =>
    rw [Bool.false_or, Bool.false_or, List.any_cons, List.any_nil, Bool.or_false, claims,
      Rule.visitsBehind, List.any_map, List.any_filter]
    refine List.any_congr rfl fun m => ?_
    cases hsame : m.root.sameAs n with
    | false => simp [hsame]
    | true =>
      have hfree : someAccepts u phase before m.root = false := by
        rw [← htaken, claims_congr hsame, htaken, hbefore]
      simp [hfree, hsame]

/-- **The visits of an ordered choice.** -/
theorem visitsOfFirst_eq_ok_iff : ∀ {rules before : List Rule} {taken vs : List Visit}
    {index : Nat}, (∀ n, claims taken n = someAccepts u phase before n) →
      (visitsOfFirst u phase taken rules index = .ok vs ↔
        UsableDuring u phase rules ∧ vs = visitsOfChoice u phase before rules index)
  | [], _, _, _, _, _ =>
      ⟨fun h => ⟨fun _ hr => absurd hr List.not_mem_nil, (Except.ok.inj h).symm⟩,
        fun h => congrArg Except.ok h.2.symm⟩
  | r :: rules, before, taken, vs, index, htaken => by
      have hmine : ((r.matchesDuring u phase).map fun m => (⟨r, index, m⟩ : Visit)).filter
          (fun v => !claims taken v.found.root) = r.visitsBehind u phase before index := by
        rw [List.filter_map, Rule.visitsBehind]
        congr 2
        funext m
        exact congrArg _ (htaken m.root)
      have hrest {ws : List Visit} : visitsOfFirst u phase
          (taken ++ r.visitsBehind u phase before index) rules (index + 1) = .ok ws ↔
            UsableDuring u phase rules ∧
              ws = visitsOfChoice u phase (before ++ [r]) rules (index + 1) :=
        visitsOfFirst_eq_ok_iff (claims_append_visitsBehind htaken)
      rw [visitsOfFirst, bind_eq_ok_iff, visitsOfChoice, ← List.singleton_append,
        usableDuring_append]
      constructor
      · rintro ⟨all, hall, h⟩
        obtain ⟨rest, htail, h⟩ := bind_eq_ok_iff.mp h
        obtain ⟨husable, rfl⟩ := visitsOf_eq_ok_iff.mp hall
        rw [hmine, hrest] at htail
        obtain ⟨hrules, rfl⟩ := htail
        rw [hmine] at h
        exact ⟨⟨husable, hrules⟩, (Except.ok.inj h).symm⟩
      · rintro ⟨⟨husable, hrules⟩, rfl⟩
        refine ⟨_, visitsOf_eq_ok_iff.mpr ⟨husable, rfl⟩, ?_⟩
        rw [hmine]
        exact bind_eq_ok_iff.mpr ⟨_, hrest.mpr ⟨hrules, rfl⟩, rfl⟩

mutual

/-- **The visits of a rule set** are those of its choices. -/
theorem visits_eq_ok_iff : ∀ (s : RuleSet) {base : Nat} {vs : List Visit},
    s.visits u phase base = .ok vs ↔
      UsableDuring u phase s.rules ∧ vs = visitsOfChoices u phase s.choices base
  | .single r, base, vs => by
      have hall : visitsOfChoices u phase [[r]] base =
          (r.matchesDuring u phase).map fun m => ⟨r, base, m⟩ := by
        simp [visitsOfChoices, visitsOfChoice, Rule.visitsBehind, someAccepts]
      rw [visits, rules, choices, visitsOf_eq_ok_iff, hall]
  | .all sets, _, _ => by
      rw [visits, rules, choices]
      exact visitsOfAll_eq_ok_iff sets
  | .firstOf rules, base, vs => by
      rw [visits, RuleSet.rules, choices, visitsOfFirst_eq_ok_iff (claims_nil u phase),
        visitsOfChoices, visitsOfChoices, List.append_nil]

theorem visitsOfAll_eq_ok_iff : ∀ (ss : List RuleSet) {base : Nat} {vs : List Visit},
    visitsOfAll u phase ss base = .ok vs ↔
      UsableDuring u phase (rulesOfAll ss) ∧ vs = visitsOfChoices u phase (choicesOfAll ss) base
  | [], _, _ => by
      rw [visitsOfAll, rulesOfAll, choicesOfAll, visitsOfChoices]
      exact ⟨fun h => ⟨fun _ hr => absurd hr List.not_mem_nil, (Except.ok.inj h).symm⟩,
        fun h => congrArg Except.ok h.2.symm⟩
  | s :: ss, base, vs => by
      rw [visitsOfAll, rulesOfAll, choicesOfAll, visitsOfChoices_append, flatten_choices,
        usableDuring_append, bind_eq_ok_iff]
      constructor
      · rintro ⟨front, hfront, h⟩
        obtain ⟨rest, hrest, h⟩ := bind_eq_ok_iff.mp h
        obtain ⟨hs, rfl⟩ := (visits_eq_ok_iff s).mp hfront
        obtain ⟨hss, rfl⟩ := (visitsOfAll_eq_ok_iff ss).mp hrest
        exact ⟨⟨hs, hss⟩, (Except.ok.inj h).symm⟩
      · rintro ⟨⟨hs, hss⟩, rfl⟩
        exact ⟨_, (visits_eq_ok_iff s).mpr ⟨hs, rfl⟩,
          bind_eq_ok_iff.mpr ⟨_, (visitsOfAll_eq_ok_iff ss).mpr ⟨hss, rfl⟩, rfl⟩⟩

end

end RuleSet

/-! ## Firing -/

/-- **Every rule fires for what it matches**, but for the main nodes that go to another member of
its choice.  The rule at position `k` of all rules has number `base + k`, and a rule that runs in
another phase keeps its number. -/
structure Fires (u : SourceUnit) (phase : Phase) (choices : List (List Rule)) (base : Nat)
    (vs : List Visit) : Prop extends Tagged choices.flatten base vs where
  usable : UsableDuring u phase choices.flatten
  fires : ∀ front before r after back, choices = front ++ (before ++ r :: after) :: back →
    vs.filter (·.index == base + (front.flatten ++ before).length) =
      r.visitsBehind u phase before (base + (front.flatten ++ before).length)
  once : ∀ front rules back, choices = front ++ rules :: back →
    Visit.Apart (vs.filter fun v => base + front.flatten.length ≤ v.index &&
      v.index < base + (front.flatten ++ rules).length)

/-- **The visits of choices** fire each rule. -/
theorem fires_visitsOfChoices {choices : List (List Rule)}
    (husable : UsableDuring u phase choices.flatten) :
    Fires u phase choices base (visitsOfChoices u phase choices base) where
  toTagged := tagged_visitsOfChoices
  usable := husable
  fires := by
    rintro front before r after back rfl
    have hcut : visitsOfChoices u phase (front ++ (before ++ r :: after) :: back) base =
        visitsOfChoices u phase front base ++
          visitsOfChoice u phase [] before (base + front.flatten.length) ++
          r.visitsBehind u phase before (base + (front.flatten ++ before).length) ++
          (visitsOfChoice u phase (before ++ [r]) after
              (base + (front.flatten ++ before ++ [r]).length) ++
            visitsOfChoices u phase back
              (base + (front.flatten ++ before ++ [r]).length + after.length)) := by
      simp only [visitsOfChoices_append, visitsOfChoices, visitsOfChoice_append, visitsOfChoice,
        List.nil_append, List.append_assoc, List.length_append, List.length_cons, List.length_nil,
        Nat.add_assoc, Nat.zero_add, Nat.add_comm 1]
    rw [hcut]
    refine Tagged.filter_eq (fun v => ?_) (tagged_visitsOfChoices.append tagged_visitsOfChoice)
      tagged_visitsBehind (tagged_visitsOfChoice.append tagged_visitsOfChoices)
    have hlast : (front.flatten ++ before ++ [r]).length = (front.flatten ++ before).length + 1 :=
      List.length_append
    rw [beq_iff_eq, hlast]
    omega
  once := by
    rintro front rules back rfl
    have hcut : visitsOfChoices u phase (front ++ rules :: back) base =
        visitsOfChoices u phase front base ++
          visitsOfChoice u phase [] rules (base + front.flatten.length) ++
          visitsOfChoices u phase back (base + (front.flatten ++ rules).length) := by
      simp only [visitsOfChoices_append, visitsOfChoices, List.append_assoc, List.length_append,
        Nat.add_assoc]
    have hrules : UsableDuring u phase rules := by
      rw [List.flatten_append, List.flatten_cons, usableDuring_append,
        usableDuring_append] at husable
      exact husable.2.1
    rw [hcut, Tagged.filter_eq (fun v => ?_) tagged_visitsOfChoices tagged_visitsOfChoice
      tagged_visitsOfChoices]
    · exact (RuleSet.apart_visitsOfFirst ((RuleSet.visitsOfFirst_eq_ok_iff
        (RuleSet.claims_nil u phase)).mpr ⟨hrules, rfl⟩)).1
    · rw [Bool.and_eq_true, decide_eq_true_iff, decide_eq_true_iff]

/-- Each position among the rules is a place in one of the choices. -/
theorem exists_choice_of_lt : ∀ {choices : List (List Rule)} {k : Nat},
    k < choices.flatten.length → ∃ front before r after back,
      choices = front ++ (before ++ r :: after) :: back ∧ (front.flatten ++ before).length = k
  | [], _, h => absurd h (Nat.not_lt_zero _)
  | rules :: choices, k, h => by
      by_cases hk : k < rules.length
      · refine ⟨[], rules.take k, rules[k], rules.drop (k + 1), choices, ?_, ?_⟩
        · rw [List.nil_append, List.getElem_cons_drop, List.take_append_drop]
        · rw [List.flatten_nil, List.nil_append, List.length_take,
            Nat.min_eq_left (Nat.le_of_lt hk)]
      · rw [List.flatten_cons, List.length_append] at h
        have hrest : k - rules.length < choices.flatten.length := by omega
        obtain ⟨front, before, r, after, back, rfl, hlength⟩ := exists_choice_of_lt hrest
        refine ⟨rules :: front, before, r, after, back, rfl, ?_⟩
        rw [List.flatten_cons, List.append_assoc, List.length_append, hlength]
        omega

/-- **One list fires the rules.** -/
theorem Fires.eq_visitsOfChoices {choices : List (List Rule)}
    (h : Fires u phase choices base vs) : vs = visitsOfChoices u phase choices base := by
  have hown : Fires u phase choices base (visitsOfChoices u phase choices base) :=
    fires_visitsOfChoices h.usable
  refine eq_of_filter_index_eq h.ascending hown.ascending fun i => ?_
  by_cases hi : base ≤ i ∧ i < base + choices.flatten.length
  · have hposition : i - base < choices.flatten.length := by omega
    obtain ⟨front, before, r, after, back, hcut, hk⟩ := exists_choice_of_lt hposition
    have hindex : i = base + (front.flatten ++ before).length := by omega
    rw [hindex, h.fires front before r after back hcut, hown.fires front before r after back hcut]
  · have hnone {ws : List Visit} (hws : Tagged choices.flatten base ws) :
        ws.filter (·.index == i) = [] := List.filter_eq_nil_iff.mpr fun v hv hvi => by
      have := (hws.placed v hv).1
      have := hws.index_lt hv
      have := beq_iff_eq.mp hvi
      omega
    rw [hnone h.toTagged, hnone hown.toTagged]

theorem fires_iff {choices : List (List Rule)} : Fires u phase choices base vs ↔
    UsableDuring u phase choices.flatten ∧ vs = visitsOfChoices u phase choices base :=
  ⟨fun h => ⟨h.usable, h.eq_visitsOfChoices⟩, fun ⟨husable, hvs⟩ =>
    hvs ▸ fires_visitsOfChoices husable⟩

/-- A pass numbers its sets as one set numbers its members. -/
theorem Pass.visitsFrom_eq : ∀ {sets : List RuleSet} {base : Nat},
    visitsFrom u phase sets base = RuleSet.visitsOfAll u phase sets base
  | [], _ => by rw [visitsFrom, RuleSet.visitsOfAll]
  | s :: ss, base => by rw [visitsFrom, RuleSet.visitsOfAll, visitsFrom_eq]

/-- **What rule sets and passes visit.**  The visits of a rule set, however nested, are those that
fire its rules, and no other list is.  A pass numbers its rules on from set to set, and visits what
fires them in its order. -/
theorem visits_eq_ok_iff_fires (u : SourceUnit) (phase : Phase) :
    (∀ s : RuleSet, s.choices.flatten = s.rules ∧
      ∀ base vs, s.visits u phase base = .ok vs ↔ Fires u phase s.choices base vs) ∧
    ∀ p : Pass, p.choices.flatten = p.rules ∧
      ∀ vs, p.visits u phase = .ok vs ↔
        ∃ ws, Fires u phase p.choices 0 ws ∧ vs = p.order.sort ws := by
  refine ⟨fun s => ⟨s.flatten_choices, fun base vs => ?_⟩,
    fun p => ⟨p.flatten_choices, fun vs => ?_⟩⟩
  · rw [fires_iff, RuleSet.visits_eq_ok_iff, RuleSet.flatten_choices]
  · rw [Pass.visits, bind_eq_ok_iff]
    refine exists_congr fun ws => and_congr ?_ ⟨fun h => (Except.ok.inj h).symm, fun h => ?_⟩
    · rw [fires_iff, Pass.visitsFrom_eq, RuleSet.visitsOfAll_eq_ok_iff, Pass.choices,
        RuleSet.flatten_choicesOfAll]
    · exact congrArg Except.ok h.symm

end ProbeWeaver
