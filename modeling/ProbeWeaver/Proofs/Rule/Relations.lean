import ProbeWeaver.Passes.Observation
import ProbeWeaver.Proofs.Rule.Offers

/-!
# Proofs/Rule/Relations — how a rule's names lie to its main node

All captures of a finding come from one place at which one pattern fits (`exists_fit_findings`), so
what a name stands for is tied to the main node of the match.  `Rule.Relates` says how, fact by fact
along the way the rule is written.

* `relates_field` — a part of a construct fills its field right below it.
* `Relates.bind`, `relates_bind` — other names, and names that a finder gives.
-/

namespace ProbeWeaver

variable {t : Tree} {u : SourceUnit} {m : Match} {r : Rule} {n p : Node} {name other : String}
  {finder : Finder}

/-- **The captures of a finding** are named at one place by one pattern. -/
theorem exists_fit_findings {q : Query} {found : Finding} (hn : n.PlaceOf t)
    (h : found ∈ q.findings n) :
    (Query.mainName, found.root) ∈ found.captures ∧
      ∃ pattern ∈ q.patterns, ∃ p : Node, ∀ c ∈ found.captures,
        Shape.NamesAny c.1 c.2 pattern.shapes p := by
  obtain ⟨w, hw, hmatch⟩ := List.mem_filterMap.mp h
  obtain ⟨p, hp, hwp⟩ := List.mem_flatMap.mp (List.mem_mergeSort.mp hw)
  obtain ⟨pattern, hpattern, hway⟩ := List.mem_flatMap.mp hwp
  obtain ⟨s, hs, hways⟩ := List.mem_flatMap.mp (mem_of_mem_settled hway)
  have hcover := cover_waysAt (hn.of_mem_walk hp) hways
  obtain ⟨root, hroot, rfl⟩ := Option.map_eq_some_iff.mp hmatch
  refine ⟨?_, pattern, hpattern, p, fun c hc => namesAny_of_mem hs (hcover.holds c hc).2⟩
  obtain ⟨front, rest, hreverse, -⟩ := List.lookup_eq_some_iff.mp hroot
  rw [← List.mem_reverse, hreverse]
  exact List.mem_append_right front List.mem_cons_self

namespace Rule

/-- **How a name lies to the main node** in every match that the rule offers in a tree. -/
def Relates (r : Rule) (name : String) (R : Node → Node → Prop) : Prop :=
  ∀ ⦃u : SourceUnit⦄ ⦃t : Tree⦄ ⦃m : Match⦄ ⦃n : Node⦄, u.root = .root t → r.Offers u m →
    m.node? name = some n → R m.root n

/-- A name of the pattern. -/
theorem relates_ofPattern {R : Node → Node → Prop} (ruleName : String) {pattern : Pattern}
    (h : ∀ p main n, Shape.NamesAny Query.mainName main pattern.shapes p →
      Shape.NamesAny name n pattern.shapes p → R main n) :
    (ofPattern ruleName pattern).Relates name R := by
  intro u t m n hu ⟨q, found, hq, hfound, hbind⟩ hn
  obtain rfl := Except.ok.inj hq
  obtain rfl := Option.some.inj hbind
  obtain ⟨hmain, pattern', hpattern, p, hnames⟩ :=
    exists_fit_findings (hu ▸ Node.placeOf_root t) hfound
  obtain rfl := List.mem_singleton.mp hpattern
  have hmain' := hnames _ hmain
  rcases mem_of_node? hn with ⟨rfl, rfl⟩ | hn
  · exact h p _ _ hmain' hmain'
  · exact h p _ _ hmain' (hnames _ (List.mem_reverse.mp hn))

/-- A name of a finder. -/
theorem relates_bind {R : Node → Node → Prop} (hroot : name ≠ "root")
    (h : ∀ {u : SourceUnit} {m : Match} {n : Node}, finder m u = some n → R m.root n) :
    (r.bind name finder).Relates name R := by
  intro u t m n hu hm hn
  obtain ⟨m₀, n', hm₀, hn', rfl⟩ := hm.of_bind
  rw [node?_bind_self hroot] at hn
  obtain rfl := Option.some.inj hn
  exact h (m := m₀) hn'

/-- Other names lie as they did. -/
theorem Relates.bind {R : Node → Node → Prop} (h : r.Relates name R) (hne : name ≠ other) :
    (r.bind other finder).Relates name R := by
  intro u t m n hu hm hn
  obtain ⟨m₀, n', hm₀, hn', rfl⟩ := hm.of_bind
  rw [node?_bind_of_ne hne] at hn
  show R m₀.root n
  exact h hu hm₀ hn

theorem Relates.filter {R : Node → Node → Prop} (h : r.Relates name R) (f : Filter) :
    (r.filter f).Relates name R := h

theorem Relates.edit {R : Node → Node → Prop} (h : r.Relates name R) (anchor : Anchor)
    (makeText : EditText) : (r.edit anchor makeText).Relates name R := h

theorem Relates.mono {R S : Node → Node → Prop} (h : r.Relates name R)
    (hRS : ∀ main n, R main n → S main n) : r.Relates name S :=
  fun _ _ _ _ hu hm hn => hRS _ _ (h hu hm hn)

/-- What fills the parts of a construct, and under which name. -/
theorem mem_of_namesBelow_parts {c : Node} : ∀ {parts : List (Field × String)},
    Shape.NamesBelow name n (Pattern.shapesEach
      (parts.map fun part => .field part.1 (Pattern.any.capture part.2))) c →
        n = c ∧ ∃ f, (f, name) ∈ parts ∧ c.tree.field = some f
  | (f, x) :: parts, h => by
      rcases h with (⟨hasks, ⟨hname, hn⟩ | ⟨c', -, hnone⟩⟩ | hnone) | h
      · rw [List.mem_singleton.mp (List.contains_iff_mem.mp hname)]
        exact ⟨hn, f, List.mem_cons_self, hasks.field f rfl⟩
      · exact hnone.elim
      · exact hnone.elim
      · obtain ⟨hn, g, hg, hfield⟩ := mem_of_namesBelow_parts h
        exact ⟨hn, g, List.mem_cons_of_mem _ hg, hfield⟩

/-- The node is a part of the construct: a child in one of the fields. -/
structure IsPart (k : Kind) (fields : List Field) (main n : Node) : Prop where
  kind : main.kind = k
  mem : n ∈ main.children
  field : ∃ f ∈ fields, n.tree.field = some f

/-- **A part of a construct** fills its field right below the main node, which is the construct. -/
theorem relates_field (ruleName : String) (k : Kind) (parts : List (Field × String))
    (hmain : "root" ∉ parts.map Prod.snd) (hroot : name ≠ "root") :
    (ofPattern ruleName ((Pattern.construct k
      (parts.map fun part => .field part.1 (Pattern.any.capture part.2))).capture
        "root")).Relates name (IsPart k ((parts.filter (·.2 = name)).map Prod.fst)) := by
  refine relates_ofPattern ruleName fun p main n hnamed hn => ?_
  obtain rfl : main = p := by
    obtain ⟨-, ⟨-, hmain⟩ | ⟨c, -, hbelow⟩⟩ | hnone := hnamed
    · exact hmain
    · obtain ⟨-, f, hf, -⟩ := mem_of_namesBelow_parts hbelow
      exact absurd (List.mem_map_of_mem hf) hmain
    · exact hnone.elim
  obtain ⟨hasks, ⟨hname, -⟩ | ⟨c, hc, hbelow⟩⟩ | hnone := hn
  · exact absurd (List.mem_singleton.mp (List.contains_iff_mem.mp hname)) hroot
  · obtain ⟨rfl, f, hf, hfield⟩ := mem_of_namesBelow_parts hbelow
    refine ⟨hasks.kind k rfl, hc, f, List.mem_map.mpr ⟨(f, name), ?_, rfl⟩, hfield⟩
    exact List.mem_filter.mpr ⟨hf, decide_eq_true rfl⟩
  · exact hnone.elim

/-- It is a child of the main node. -/
theorem relates_part (ruleName : String) (k : Kind) (parts : List (Field × String))
    (hmain : "root" ∉ parts.map Prod.snd) (hroot : name ≠ "root") :
    (ofPattern ruleName ((Pattern.construct k
      (parts.map fun part => .field part.1 (Pattern.any.capture part.2))).capture
        "root")).Relates name fun main n => n ∈ main.children :=
  (relates_field ruleName k parts hmain hroot).mono fun _ _ h => h.mem

end Rule

end ProbeWeaver
