import ProbeWeaver.Proofs.Query.Captures
import ProbeWeaver.Rule.Pass

/-!
# Proofs/Rule/Offers — what a rule's names stand for

A rule offers a match when its finders accept a finding, whatever its filters say (`Rule.Offers`).
Fact by fact along the way a rule is written, `Rule.Means` says what a name of every offered match
stands for.

* `Offers.of_mem_finders` — a name that one finder gives is what the finder found.
* `means_ofPattern`, `means_bind`, `Means.bind` — names that the pattern gives, names that a finder
  gives, and other names.
-/

namespace ProbeWeaver

variable {t : Tree} {u : SourceUnit} {m m' : Match} {r : Rule} {n : Node} {name other : String}
  {finder : Finder}

/-! ## Names of a match -/

/-- A named node is the main one or bound to the name. -/
theorem mem_of_node? (hn : m.node? name = some n) :
    (name = "root" ∧ n = m.root) ∨ (name, n) ∈ m.bindings := by
  rw [Match.node?] at hn
  split at hn
  · next hname => exact .inl ⟨hname, (Option.some.inj hn).symm⟩
  · obtain ⟨front, rest, hbindings, -⟩ := List.lookup_eq_some_iff.mp hn
    rw [hbindings]
    exact .inr (List.mem_append_right front List.mem_cons_self)

/-- A name that is taken for granted and there. -/
theorem node?_of_node (h : m.node name = .ok n) : m.node? name = some n := by
  rw [Match.node] at h
  split at h
  · next hn => rw [hn, Except.ok.inj h]
  · contradiction

theorem node?_bind_self (hroot : name ≠ "root") : (m.bind name n).node? name = some n := by
  rw [Match.node?, if_neg hroot, Match.bind, List.lookup_cons_self]

theorem node?_bind_of_ne (h : name ≠ other) : (m.bind other n).node? name = m.node? name := by
  rw [Match.node?, Match.node?, Match.bind, List.lookup_cons, beq_false_of_ne h]

namespace Rule

/-! ## Offers -/

/-- **The rule offers the match**: its finders name what the match has, before filters are asked. -/
def Offers (r : Rule) (u : SourceUnit) (m : Match) : Prop :=
  ∃ q found, r.query = .ok q ∧ found ∈ q.findings u.root ∧
    bindAll u r.finders ⟨r.name, found.root, found.captures.reverse⟩ = some m

theorem bindAll_append : ∀ {fs gs : List (String × Finder)} {m : Match},
    bindAll u (fs ++ gs) m = (bindAll u fs m).bind (bindAll u gs)
  | [], _, _ => rfl
  | (name, finder) :: fs, gs, m => by
      rw [List.cons_append, bindAll, bindAll]
      cases finder m u with
      | none => rfl
      | some n => exact bindAll_append

/-- Finders leave the main node as it is. -/
theorem root_of_bindAll : ∀ {fs : List (String × Finder)} {m : Match},
    bindAll u fs m = some m' → m'.root = m.root
  | [], m, h => by rw [Option.some.inj h]
  | (name, finder) :: fs, m, h => by
      obtain ⟨n, hn, h⟩ := Option.bind_eq_some_iff.mp h
      exact root_of_bindAll (m := m.bind name n) h

/-- Finders leave other names as they are. -/
theorem node?_of_bindAll : ∀ {fs : List (String × Finder)} {m : Match},
    name ∉ fs.map Prod.fst → bindAll u fs m = some m' → m'.node? name = m.node? name
  | [], m, _, h => by rw [Option.some.inj h]
  | (other, finder) :: fs, m, hname, h => by
      obtain ⟨n, hn, h⟩ := Option.bind_eq_some_iff.mp h
      rw [List.map_cons, List.mem_cons, not_or] at hname
      rw [node?_of_bindAll hname.2 h, node?_bind_of_ne hname.1]

theorem Offers.of_bind (h : (r.bind name finder).Offers u m) :
    ∃ m₀ n, r.Offers u m₀ ∧ finder m₀ u = some n ∧ m = m₀.bind name n := by
  obtain ⟨q, found, hq, hfound, h⟩ := h
  rw [bind, bindAll_append] at h
  obtain ⟨m₀, hm₀, h⟩ := Option.bind_eq_some_iff.mp h
  obtain ⟨n, hn, h⟩ := Option.bind_eq_some_iff.mp h
  exact ⟨m₀, n, ⟨q, found, hq, hfound, hm₀⟩, hn, (Option.some.inj h).symm⟩

/-- **A name that one finder gives** is what the finder found, in a match with the same main
node. -/
theorem Offers.of_mem_finders (h : r.Offers u m) (hfinder : (name, finder) ∈ r.finders)
    (honce : ("root" :: r.finders.map Prod.fst).Nodup) :
    ∃ m₀ : Match, m₀.root = m.root ∧ m.node? name = finder m₀ u := by
  obtain ⟨hnoRoot, honce⟩ := List.nodup_cons.mp honce
  have hroot : name ≠ "root" := by
    rintro rfl
    exact hnoRoot (List.mem_map_of_mem hfinder)
  obtain ⟨q, found, hq, hfound, h⟩ := h
  obtain ⟨fs, gs, hsplit⟩ := List.append_of_mem hfinder
  rw [hsplit, bindAll_append] at h
  rw [hsplit, List.map_append, List.nodup_append, List.map_cons, List.nodup_cons] at honce
  obtain ⟨m₀, hm₀, h⟩ := Option.bind_eq_some_iff.mp h
  obtain ⟨n, hn, h⟩ := Option.bind_eq_some_iff.mp h
  refine ⟨m₀, (root_of_bindAll h).symm, ?_⟩
  rw [node?_of_bindAll honce.2.1.1 h, hn, node?_bind_self hroot]

/-- The rule may give the name: its query or a finder does. -/
def mentions (r : Rule) (name : String) : Bool :=
  (match r.query with
    | .ok q => q.mentions name
    | .error _ => false) || r.finders.any (·.1 == name)

/-- **A name of an offered match** is one that the rule gives. -/
theorem Offers.mentions (hu : u.root = .root t) (h : r.Offers u m) (hroot : name ≠ "root")
    (hn : m.node? name = some n) : r.mentions name = true := by
  obtain ⟨q, found, hq, hfound, hbind⟩ := h
  rw [Rule.mentions, hq, Bool.or_eq_true_iff]
  by_cases hfinder : name ∈ r.finders.map Prod.fst
  · obtain ⟨f, hf, hname⟩ := List.mem_map.mp hfinder
    exact .inr (List.any_eq_true.mpr ⟨f, hf, beq_iff_eq.mpr hname⟩)
  · rw [node?_of_bindAll hfinder hbind] at hn
    rcases mem_of_node? hn with ⟨hname, -⟩ | hn
    · exact absurd hname hroot
    · have hcover := (cover_findings (hu ▸ Node.placeOf_root t) hfound).2
      exact .inl (hcover.holds (name, n) (List.mem_reverse.mp hn)).2.mentions

theorem mem_of_mem_firstPerRoot {found : Finding} : ∀ {fs : List Finding},
    found ∈ firstPerRoot fs → found ∈ fs
  | f :: fs, h => by
      rw [firstPerRoot] at h
      rcases List.mem_cons.mp h with rfl | h
      · exact List.mem_cons_self
      · exact List.mem_cons_of_mem f (mem_of_mem_firstPerRoot (List.mem_filter.mp h).1)

/-- **The matches of a rule** are offered and accepted by every filter. -/
theorem offers_of_mem_matchesIn {ms : List Match} (h : r.matchesIn u = .ok ms) (hm : m ∈ ms) :
    r.Offers u m ∧ ∀ f ∈ r.filters, f m u = true := by
  rw [matchesIn] at h
  split at h
  · next q hq =>
    obtain rfl := Except.ok.inj h
    obtain ⟨found, hfound, hm⟩ := List.mem_filterMap.mp hm
    obtain ⟨m₀, hbind, hfilter⟩ := Option.bind_eq_some_iff.mp hm
    split at hfilter
    · next hall =>
      obtain rfl := Option.some.inj hfilter
      exact ⟨⟨q, found, hq, mem_of_mem_firstPerRoot hfound, hbind⟩, List.all_eq_true.mp hall⟩
    · contradiction
  · contradiction

/-! ## Meanings -/

/-- **What a name stands for** in every match that the rule offers in a tree. -/
def Means (r : Rule) (name : String) (P : Node → Prop) : Prop :=
  ∀ ⦃u : SourceUnit⦄ ⦃t : Tree⦄ ⦃m : Match⦄ ⦃n : Node⦄, u.root = .root t → r.Offers u m →
    m.node? name = some n → P n

/-- The matches that a pattern alone offers name what the pattern says. -/
theorem Offers.names {p : Pattern} {ruleName : String} (hu : u.root = .root t)
    (h : (ofPattern ruleName p).Offers u m) (hn : m.node? name = some n) : p.Names name n := by
  obtain ⟨q, found, hq, hfound, h⟩ := h
  obtain rfl := Except.ok.inj hq
  obtain rfl := Option.some.inj h
  obtain ⟨hmain, hcover⟩ := cover_findings (hu ▸ Node.placeOf_root t) hfound
  have hnames : ∀ c ∈ found.captures, p.Names c.1 c.2 := by
    intro c hc
    obtain ⟨p', hp', hnames⟩ := (hcover.holds c hc).2
    rwa [List.mem_singleton.mp hp'] at hnames
  rcases mem_of_node? hn with ⟨rfl, rfl⟩ | hn
  · exact hnames _ hmain
  · exact hnames (name, n) (List.mem_reverse.mp hn)

/-- A name of the pattern. -/
theorem means_ofPattern {P : Node → Prop} (ruleName : String) {p : Pattern}
    (h : ∀ n, p.Names name n → P n) : (ofPattern ruleName p).Means name P :=
  fun _ _ _ _ hu hm hn => h _ (hm.names hu hn)

/-- A name of a finder. -/
theorem means_bind {P : Node → Prop} (hroot : name ≠ "root")
    (h : ∀ {u : SourceUnit} {t : Tree} {m : Match} {n : Node}, u.root = .root t → r.Offers u m →
      finder m u = some n → P n) :
    (r.bind name finder).Means name P := by
  intro u t m n hu hm hn
  obtain ⟨m₀, n', hm₀, hn', rfl⟩ := hm.of_bind
  rw [node?_bind_self hroot] at hn
  obtain rfl := Option.some.inj hn
  exact h hu hm₀ hn'

/-- Other names mean what they meant. -/
theorem Means.bind {P : Node → Prop} (h : r.Means name P) (hne : name ≠ other) :
    (r.bind other finder).Means name P := by
  intro u t m n hu hm hn
  obtain ⟨m₀, n', hm₀, hn', rfl⟩ := hm.of_bind
  rw [node?_bind_of_ne hne] at hn
  exact h hu hm₀ hn

theorem Means.filter {P : Node → Prop} (h : r.Means name P) (f : Filter) :
    (r.filter f).Means name P := h

theorem Means.edit {P : Node → Prop} (h : r.Means name P) (anchor : Anchor) (makeText : EditText) :
    (r.edit anchor makeText).Means name P := h

end Rule

end ProbeWeaver
