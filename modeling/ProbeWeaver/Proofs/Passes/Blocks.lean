import ProbeWeaver.Passes.Braces
import ProbeWeaver.Proofs.Rule.Order
import ProbeWeaver.Proofs.Rule.Parts
import ProbeWeaver.Proofs.Tree.Headers

/-!
# Proofs/Passes/Blocks — what the braces pass wraps

The rules of the pass find their statements in different ways: as a part of a construct, behind an
`else`, behind a label.  Each wraps all the statements it finds that are no blocks
(`Braces.WrapsEach`), and together they wrap what the constructs of the file control.

* `Braces.wraps_iff` — the statements of the visits, none left out.
* `Braces.wrapsOnce_visits` — and none twice.
-/

namespace ProbeWeaver.Braces

open Node

variable {t : Tree} {u : SourceUnit} {r : Rule} {n c : Node} {found : Finding} {m : Match}
  {Fits Fits' : Node → Node → Prop} {ms : List Match}

/-! ## Rules that wrap -/

/-- The match of a rule that wraps a statement of a construct. -/
def wrap (r : Rule) (n c : Node) : Match := ⟨r.name, n, [("stmt", c), ("root", n)]⟩

/-- **The rule wraps each** statement that fits a construct of the file, but for blocks. -/
def WrapsEach (r : Rule) (Fits : Node → Node → Prop) : Prop :=
  ∀ ⦃u : SourceUnit⦄ ⦃t : Tree⦄ ⦃ms : List Match⦄, u.root = .root t → r.matchesIn u = .ok ms →
    ∀ m, m ∈ ms ↔ ∃ n c, n.PlaceOf t ∧ Fits n c ∧ n.isSpelledInFile = true ∧
      c.kind ≠ .compoundStatement ∧ m = wrap r n c

/-- A rule with the two filters accepts what finders accept, unless a filter says no. -/
theorem accept?_wrapping_iff (hr : r.filters = []) : (wrapping r).accept? u found = some m ↔
    Rule.bindAll u r.finders ⟨r.name, found.root, found.captures.reverse⟩ = some m ∧
      m.root.isSpelledInFile = true ∧ isUnbraced m u = true := by
  have hfilters : (wrapping r).filters = [Condition.isSpelledInFile, isUnbraced] := by
    show r.filters ++ _ ++ _ = _
    rw [hr]
    rfl
  rw [Rule.accept?, hfilters, Option.bind_eq_bind, Option.bind_eq_some_iff]
  constructor
  · rintro ⟨m', hbind, h⟩
    split at h
    · next hall =>
      obtain rfl := Option.some.inj h
      simp only [List.all_cons, List.all_nil, Bool.and_true, Bool.and_eq_true_iff] at hall
      exact ⟨hbind, hall⟩
    · contradiction
  · rintro ⟨hbind, hspelled, hunbraced⟩
    refine ⟨m, hbind, if_pos ?_⟩
    rw [List.all_cons, List.all_cons, List.all_nil, hunbraced]
    exact (Bool.and_true _).trans hspelled

/-- Both filters ask for a statement of the file that is no block. -/
theorem accept?_wrapping (hr : r.filters = []) (hbind :
    Rule.bindAll u r.finders ⟨r.name, found.root, found.captures.reverse⟩ = some (wrap r n c)) :
    (wrapping r).accept? u found = some m ↔
      n.isSpelledInFile = true ∧ c.kind ≠ .compoundStatement ∧ m = wrap (wrapping r) n c := by
  rw [accept?_wrapping_iff hr, hbind]
  constructor
  · rintro ⟨heq, hspelled, hunbraced⟩
    obtain rfl := Option.some.inj heq
    exact ⟨hspelled, bne_iff_ne.mp hunbraced, rfl⟩
  · rintro ⟨hspelled, hkind, rfl⟩
    exact ⟨rfl, hspelled, bne_iff_ne.mpr hkind⟩

/-- **A rule for a part** wraps what first fills the field. -/
theorem wrapsEach_part {ruleName : String} {p : Pattern} {kinds : List Kind} {f : Field}
    (hp : p.NamesPart kinds f "stmt") : WrapsEach (wrapping (.ofPattern ruleName p)) fun n c =>
      n.kind ∈ kinds ∧ (n.namedFillers f).head? = some c := by
  intro u t ms hu hms m
  rw [Rule.mem_matchesIn_part_iff rfl hp hu hms]
  constructor
  · rintro ⟨n, c, hn, hkind, hc, haccept⟩
    obtain ⟨hspelled, hblock, rfl⟩ := (accept?_wrapping rfl rfl).mp haccept
    exact ⟨n, c, hn, ⟨hkind, hc⟩, hspelled, hblock, rfl⟩
  · rintro ⟨n, c, hn, ⟨hkind, hc⟩, hspelled, hblock, rfl⟩
    exact ⟨n, c, hn, hkind, hc, (accept?_wrapping rfl rfl).mpr ⟨hspelled, hblock, rfl⟩⟩

/-- **A rule that finds its statement** from the construct wraps what it finds. -/
theorem wrapsEach_found {ruleName : String} {p : Pattern} {Q : Node → Prop}
    (hplain : (Query.ofPattern p).Plain fun top n => n ∈ top.walk ∧ Q n)
    (stmt? : Node → Option Node) :
    WrapsEach (wrapping ((Rule.ofPattern ruleName p).bind "stmt" fun m _ => stmt? m.root))
      fun n c => Q n ∧ stmt? n = some c := by
  intro u t ms hu hms m
  have hbind {n c : Node} (hc : stmt? n = some c) :
      Rule.bindAll u [("stmt", fun m _ => stmt? m.root)] ⟨ruleName, n, [("root", n)]⟩ =
        some ⟨ruleName, n, [("stmt", c), ("root", n)]⟩ := by
    rw [Rule.bindAll, hc]
    rfl
  rw [Rule.mem_matchesIn_iff rfl hplain hu hms, hu]
  constructor
  · rintro ⟨n, ⟨hn, hQ⟩, haccept⟩
    obtain ⟨c, hc, -⟩ := Option.bind_eq_some_iff.mp ((accept?_wrapping_iff rfl).mp haccept).1
    obtain ⟨hspelled, hblock, rfl⟩ := (accept?_wrapping rfl (hbind hc)).mp haccept
    exact ⟨n, c, (placeOf_root t).of_mem_walk hn, ⟨hQ, hc⟩, hspelled, hblock, rfl⟩
  · rintro ⟨n, c, hn, ⟨hQ, hc⟩, hspelled, hblock, rfl⟩
    exact ⟨n, ⟨hn.mem_walk, hQ⟩, (accept?_wrapping rfl (hbind hc)).mpr ⟨hspelled, hblock, rfl⟩⟩

/-! ## The rules of the pass -/

theorem wrapsEach_thenRule : WrapsEach thenRule fun n c =>
    n.kind ∈ [Kind.ifStatement] ∧ (n.namedFillers .consequence).head? = some c :=
  wrapsEach_part ⟨rfl, by decide, by decide⟩

theorem wrapsEach_loopRule : WrapsEach loopRule fun n c =>
    n.kind ∈ [Kind.forStatement, .whileStatement, .doStatement] ∧
      (n.namedFillers .body).head? = some c :=
  wrapsEach_part ⟨rfl, by decide, by decide⟩

theorem wrapsEach_elseRule : WrapsEach elseRule fun n c =>
    (n.kind = .ifStatement ∧ n.namedFillers .alternative ≠ []) ∧ n.elseBranch? = some c :=
  wrapsEach_found (Query.plain_holding rfl) elseBranch?

/-- The rule for labels with a value. -/
def caseRule : Rule :=
  wrapping <| (Rule.ofPattern "braces-case" <|
    (Pattern.construct .caseStatement [.field .value .any]).capture "root").bind "stmt" labelled

/-- The rule for all labels. -/
def defaultRule : Rule :=
  wrapping <| (Rule.ofPattern "braces-default" <|
    (Pattern.construct .caseStatement []).capture "root").bind "stmt" labelled

theorem wrapsEach_caseRule : WrapsEach caseRule fun n c =>
    (n.kind = .caseStatement ∧ n.namedFillers .value ≠ []) ∧ n.labelled? = some c :=
  wrapsEach_found (Query.plain_holding rfl) labelled?

theorem wrapsEach_defaultRule : WrapsEach defaultRule fun n c =>
    n.kind = .caseStatement ∧ n.labelled? = some c :=
  wrapsEach_found ((Condition.plain_anyOf .caseStatement).congr rfl) labelled?

/-! ## The visits of the pass -/

/-- **The statements that rules wrap**, of all visits. -/
def Wraps (vs : List Visit) (c : Node) : Prop := ∃ v ∈ vs, v.found.node? "stmt" = some c

theorem wraps_append {vs ws : List Visit} : Wraps (vs ++ ws) c ↔ Wraps vs c ∨ Wraps ws c := by
  simp only [Wraps, List.mem_append, or_and_right, exists_or]

theorem mem_visitsOf_iff (h : WrapsEach r Fits) (hphase : r.phase = .traversal)
    (hu : u.root = .root t) {index : Nat} {vs : List Visit}
    (hvs : RuleSet.visitsOf u .traversal r index = .ok vs) {v : Visit} : v ∈ vs ↔
      ∃ n c, n.PlaceOf t ∧ Fits n c ∧ n.isSpelledInFile = true ∧ c.kind ≠ .compoundStatement ∧
        v = ⟨r, index, wrap r n c⟩ := by
  rw [RuleSet.visitsOf, if_pos hphase] at hvs
  obtain ⟨ms, hms, hvs⟩ := bind_eq_ok_iff.mp hvs
  obtain rfl := Except.ok.inj hvs
  rw [List.mem_map]
  constructor
  · rintro ⟨m, hm, rfl⟩
    obtain ⟨n, c, hn, hfits, hspelled, hkind, rfl⟩ := (h hu hms m).mp hm
    exact ⟨n, c, hn, hfits, hspelled, hkind, rfl⟩
  · rintro ⟨n, c, hn, hfits, hspelled, hkind, rfl⟩
    exact ⟨_, (h hu hms _).mpr ⟨n, c, hn, hfits, hspelled, hkind, rfl⟩, rfl⟩

/-- The visits of one rule. -/
theorem wraps_visits_single (h : WrapsEach r Fits) (hphase : r.phase = .traversal)
    (hu : u.root = .root t) (base : Nat) (vs : List Visit)
    (hvs : (RuleSet.single r).visits u .traversal base = .ok vs) :
    Wraps vs c ↔ Unblocked t Fits c := by
  rw [RuleSet.visits] at hvs
  constructor
  · rintro ⟨v, hv, hc⟩
    obtain ⟨n, c', hn, hfits, hspelled, hkind, rfl⟩ := (mem_visitsOf_iff h hphase hu hvs).mp hv
    obtain rfl := Option.some.inj hc
    exact ⟨hkind, n, hn, hspelled, hfits⟩
  · rintro ⟨hkind, n, hn, hspelled, hfits⟩
    exact ⟨_, (mem_visitsOf_iff h hphase hu hvs).mpr ⟨n, c, hn, hfits, hspelled, hkind, rfl⟩, rfl⟩

/-- The visits of two rules in order of choice: the second one gets what the first leaves. -/
theorem eq_of_visitsOfFirst_pair {r' : Rule} {phase : Phase} {base : Nat} {vs : List Visit}
    (h : RuleSet.visitsOfFirst u phase [] [r, r'] base = .ok vs) :
    ∃ first second, RuleSet.visitsOf u phase r base = .ok first ∧
      RuleSet.visitsOf u phase r' (base + 1) = .ok second ∧
        vs = first ++ second.filter fun v => !RuleSet.claims first v.found.root := by
  obtain ⟨first, hfirst, h⟩ := bind_eq_ok_iff.mp h
  obtain ⟨_, hrest, h⟩ := bind_eq_ok_iff.mp h
  obtain ⟨second, hsecond, hrest⟩ := bind_eq_ok_iff.mp hrest
  obtain rfl := Except.ok.inj hrest
  obtain rfl := Except.ok.inj h
  have hall : first.filter (fun v => !RuleSet.claims [] v.found.root) = first :=
    List.filter_eq_self.mpr fun _ _ => rfl
  exact ⟨first, second, hfirst, hsecond, by rw [hall, List.nil_append, List.append_nil]⟩

/-- **The visits of the rules for labels**: what one rule leaves of them goes to the other. -/
theorem wraps_visits_labelSet (hu : u.root = .root t) (base : Nat) (vs : List Visit)
    (hvs : labelSet.visits u .traversal base = .ok vs) : Wraps vs c ↔
      Unblocked t (fun n c => n.kind = .caseStatement ∧ n.labelled? = some c) c := by
  rw [labelSet, RuleSet.visits] at hvs
  obtain ⟨cases, labels, hcases, hlabels, rfl⟩ := eq_of_visitsOfFirst_pair hvs
  have hcase {v : Visit} := mem_visitsOf_iff wrapsEach_caseRule rfl hu hcases (v := v)
  have hlabel {v : Visit} := mem_visitsOf_iff wrapsEach_defaultRule rfl hu hlabels (v := v)
  constructor
  · rintro ⟨v, hv, hc⟩
    rcases List.mem_append.mp hv with hv | hv
    · obtain ⟨n, c', hn, ⟨⟨hkind, -⟩, hfirst⟩, hspelled, hblock, rfl⟩ := hcase.mp hv
      obtain rfl := Option.some.inj hc
      exact ⟨hblock, n, hn, hspelled, hkind, hfirst⟩
    · obtain ⟨n, c', hn, ⟨hkind, hfirst⟩, hspelled, hblock, rfl⟩ :=
        hlabel.mp (List.mem_filter.mp hv).1
      obtain rfl := Option.some.inj hc
      exact ⟨hblock, n, hn, hspelled, hkind, hfirst⟩
  · rintro ⟨hblock, n, hn, hspelled, hkind, hfirst⟩
    have hv := hlabel.mpr ⟨n, c, hn, ⟨hkind, hfirst⟩, hspelled, hblock, rfl⟩
    cases htaken : RuleSet.claims cases n with
    | true =>
      -- the first statement behind a label is the same for both rules
      obtain ⟨w, hw, hsame⟩ := List.any_eq_true.mp htaken
      obtain ⟨n', c', hn', ⟨-, hfirst'⟩, -, -, rfl⟩ := hcase.mp hw
      obtain rfl : n' = n := hn'.eq_of_sameAs hn hsame
      obtain rfl := Option.some.inj (hfirst'.symm.trans hfirst)
      exact ⟨_, List.mem_append_left _ hw, rfl⟩
    | false =>
      have hleft : (!RuleSet.claims cases n) = true := (Bool.not_eq_true' _).mpr htaken
      exact ⟨_, List.mem_append_right _ (List.mem_filter.mpr ⟨hv, hleft⟩), rfl⟩

/-! ## Each statement once -/

/-- **No statement is wrapped twice.** -/
def WrapsOnce (vs : List Visit) : Prop :=
  vs.Pairwise fun v w => ∀ c d, v.found.node? "stmt" = some c → w.found.node? "stmt" = some d →
    c.sameAs d = false

/-- A construct controls what each visit wraps. -/
def WrapsControlled (t : Tree) (vs : List Visit) : Prop :=
  ∀ v ∈ vs, ∀ c, v.found.node? "stmt" = some c →
    v.found.root.PlaceOf t ∧ v.found.root.Controls c

/-- Visits of different constructs wrap different statements. -/
theorem wrapsOnce_of_apart {vs : List Visit} (hapart : Visit.Apart vs)
    (hvs : WrapsControlled t vs) : WrapsOnce vs := by
  refine hapart.imp_of_mem fun {v w} hv hw hne c d hc hd => Bool.eq_false_iff.mpr fun hsame => ?_
  obtain ⟨hplace, hcontrols⟩ := hvs v hv c hc
  obtain ⟨hplace', hcontrols'⟩ := hvs w hw d hd
  obtain rfl := (hcontrols.placeOf hplace).eq_of_sameAs (hcontrols'.placeOf hplace') hsame
  rw [hcontrols.eq_of_controls hcontrols', sameAs_self] at hne
  contradiction

theorem wrapsControlled_of_wrapsEach (h : WrapsEach r Fits) (hphase : r.phase = .traversal)
    (hfits : ∀ n c, Fits n c → Controls n c) (hu : u.root = .root t) {index : Nat}
    {vs : List Visit} (hvs : RuleSet.visitsOf u .traversal r index = .ok vs) :
    WrapsControlled t vs := by
  intro v hv c hc
  obtain ⟨n, c', hn, hfit, -, -, rfl⟩ := (mem_visitsOf_iff h hphase hu hvs).mp hv
  obtain rfl := Option.some.inj hc
  exact ⟨hn, hfits n c' hfit⟩

/-- The visits of one rule. -/
theorem wrapsOnce_visits_single (h : WrapsEach r Fits) (hphase : r.phase = .traversal)
    (hfits : ∀ n c, Fits n c → Controls n c) (hu : u.root = .root t) (base : Nat)
    (vs : List Visit) (hvs : (RuleSet.single r).visits u .traversal base = .ok vs) :
    WrapsOnce vs := by
  rw [RuleSet.visits] at hvs
  exact wrapsOnce_of_apart (RuleSet.apart_visitsOf hvs)
    (wrapsControlled_of_wrapsEach h hphase hfits hu hvs)

/-- The visits of the rules for labels: each label goes to one of them. -/
theorem wrapsOnce_visits_labelSet (hu : u.root = .root t) (base : Nat) (vs : List Visit)
    (hvs : labelSet.visits u .traversal base = .ok vs) : WrapsOnce vs := by
  rw [labelSet, RuleSet.visits] at hvs
  refine wrapsOnce_of_apart (t := t) (RuleSet.apart_visitsOfFirst hvs).1 fun v hv => ?_
  obtain ⟨cases, labels, hcases, hlabels, rfl⟩ := eq_of_visitsOfFirst_pair hvs
  rcases List.mem_append.mp hv with hv | hv
  · exact wrapsControlled_of_wrapsEach wrapsEach_caseRule rfl
      (fun n c hfit => .labelled hfit.1.1 hfit.2) hu hcases v hv
  · exact wrapsControlled_of_wrapsEach wrapsEach_defaultRule rfl
      (fun n c hfit => .labelled hfit.1 hfit.2) hu hlabels v (List.mem_filter.mp hv).1

/-! ## Rule sets that fire independently -/

/-- The visits of rule sets in a row. -/
theorem exists_visitsOfAll_cons {s : RuleSet} {ss : List RuleSet} {base : Nat} {vs : List Visit}
    (h : RuleSet.visitsOfAll u .traversal (s :: ss) base = .ok vs) :
    ∃ front, s.visits u .traversal base = .ok front ∧
      ∃ rest, RuleSet.visitsOfAll u .traversal ss (base + s.length) = .ok rest ∧
        vs = front ++ rest := by
  rw [RuleSet.visitsOfAll] at h
  obtain ⟨front, hfront, h⟩ := bind_eq_ok_iff.mp h
  obtain ⟨rest, hrest, h⟩ := bind_eq_ok_iff.mp h
  exact ⟨front, hfront, rest, hrest, (Except.ok.inj h).symm⟩

/-- **What rule sets cover**: their visits wrap the statements that fit constructs of the file, which
control them, each once. -/
structure Covers (t : Tree) (visits : Nat → Except UnusableRule (List Visit))
    (Fits : Node → Node → Prop) : Prop where
  controls : ∀ n c, Fits n c → Controls n c
  wraps : ∀ base vs, visits base = .ok vs → ∀ c, Wraps vs c ↔ Unblocked t Fits c
  once : ∀ base vs, visits base = .ok vs → WrapsOnce vs

theorem Covers.congr {visits : Nat → Except UnusableRule (List Visit)} (h : Covers t visits Fits)
    (hfits : ∀ n c, Fits n c ↔ Fits' n c) : Covers t visits Fits' where
  controls := fun n c hfit => h.controls n c ((hfits n c).mpr hfit)
  wraps := fun base vs hvs c => (h.wraps base vs hvs c).trans (unblocked_congr fun n => hfits n c)
  once := h.once

theorem covers_single (h : WrapsEach r Fits) (hphase : r.phase = .traversal)
    (hfits : ∀ n c, Fits n c → Controls n c) (hu : u.root = .root t) :
    Covers t ((RuleSet.single r).visits u .traversal) Fits where
  controls := hfits
  wraps := fun base vs hvs _ => wraps_visits_single h hphase hu base vs hvs
  once := wrapsOnce_visits_single h hphase hfits hu

theorem covers_labelSet (hu : u.root = .root t) : Covers t (labelSet.visits u .traversal)
    fun n c => n.kind = .caseStatement ∧ n.labelled? = some c where
  controls := fun _ _ hfit => .labelled hfit.1 hfit.2
  wraps := fun base vs hvs _ => wraps_visits_labelSet hu base vs hvs
  once := wrapsOnce_visits_labelSet hu

theorem covers_nil : Covers t (RuleSet.visitsOfAll u .traversal []) fun _ _ => False where
  controls := fun _ _ => False.elim
  wraps := fun base vs hvs c => by
    obtain rfl := Except.ok.inj hvs
    simp [Wraps, Unblocked]
  once := fun base vs hvs => by
    obtain rfl := Except.ok.inj hvs
    exact .nil

/-- **Rule sets about different statements** wrap none twice between them. -/
theorem Covers.cons {s : RuleSet} {ss : List RuleSet} (hs : Covers t (s.visits u .traversal) Fits)
    (hss : Covers t (RuleSet.visitsOfAll u .traversal ss) Fits')
    (hexcludes : ∀ n c, Fits n c → ¬ Fits' n c) :
    Covers t (RuleSet.visitsOfAll u .traversal (s :: ss)) fun n c => Fits n c ∨ Fits' n c where
  controls := fun n c hfit => hfit.elim (hs.controls n c) (hss.controls n c)
  wraps := fun base vs hvs c => by
    obtain ⟨front, hfront, rest, hrest, rfl⟩ := exists_visitsOfAll_cons hvs
    rw [wraps_append, unblocked_or, hs.wraps base front hfront, hss.wraps _ rest hrest]
  once := fun base vs hvs => by
    obtain ⟨front, hfront, rest, hrest, rfl⟩ := exists_visitsOfAll_cons hvs
    refine List.pairwise_append.mpr ⟨hs.once base front hfront, hss.once _ rest hrest,
      fun v hv w hw c d hc hd => Bool.eq_false_iff.mpr fun hsame => ?_⟩
    obtain ⟨-, n, hn, -, hfit⟩ := (hs.wraps base front hfront c).mp ⟨v, hv, hc⟩
    obtain ⟨-, m, hm, -, hfit'⟩ := (hss.wraps _ rest hrest d).mp ⟨w, hw, hd⟩
    have hcontrols := hs.controls n c hfit
    have hcontrols' := hss.controls m d hfit'
    obtain rfl := (hcontrols.placeOf hn).eq_of_sameAs (hcontrols'.placeOf hm) hsame
    obtain rfl := hcontrols.eq_of_controls hcontrols'
    exact hexcludes n c hfit hfit'

/-- The rules between them find what a construct controls. -/
theorem controls_iff : n.Controls c ↔
    (n.kind ∈ [Kind.ifStatement] ∧ (n.namedFillers .consequence).head? = some c) ∨
    ((n.kind = .ifStatement ∧ n.namedFillers .alternative ≠ []) ∧ n.elseBranch? = some c) ∨
    (n.kind ∈ [Kind.forStatement, .whileStatement, .doStatement] ∧
      (n.namedFillers .body).head? = some c) ∨
    (n.kind = .caseStatement ∧ n.labelled? = some c) ∨ False := by
  constructor
  · rintro (⟨kind, first⟩ | ⟨kind, otherwise, branch⟩ | ⟨kind, first⟩ | ⟨kind, first⟩)
    · exact .inl ⟨List.mem_singleton.mpr kind, first⟩
    · exact .inr (.inl ⟨⟨kind, otherwise⟩, branch⟩)
    · exact .inr (.inr (.inl ⟨kind, first⟩))
    · exact .inr (.inr (.inr (.inl ⟨kind, first⟩)))
  · rintro (⟨kind, first⟩ | ⟨⟨kind, otherwise⟩, branch⟩ | ⟨kind, first⟩ | ⟨kind, first⟩ | h)
    · exact .thenBranch (List.mem_singleton.mp kind) first
    · exact .elseBranch kind otherwise branch
    · exact .loopBody kind first
    · exact .labelled kind first
    · exact h.elim

/-- What an `if` does is not what it does otherwise. -/
theorem elseBranch?_ne_of_consequence (hkind : n.kind = .ifStatement)
    (hc : (n.namedFillers .consequence).head? = some c) : n.elseBranch? ≠ some c := by
  intro hbranch
  obtain ⟨hc, hfield⟩ := List.mem_filter.mp (List.mem_filter.mp (List.mem_of_head? hc)).1
  obtain ⟨a, ha, ⟨hclause, hfirst⟩ | ⟨-, rfl⟩⟩ := elseBranch?_cases hbranch
  · have hparent := parent?_of_mem_children (List.mem_filter.mp (List.mem_of_head? hfirst)).1
    obtain rfl := Option.some.inj (hparent.symm.trans (parent?_of_mem_children hc))
    rw [hkind] at hclause
    contradiction
  · have halternative := List.find?_some ha
    rw [beq_iff_eq.mp hfield] at halternative
    contradiction

/-- **The rules of the pass** cover what constructs control: no two of them are about the same kind
of construct, but for those about both parts of an `if`. -/
theorem covers_rules (hu : u.root = .root t) : Covers t (RuleSet.visitsOfAll u .traversal
    [.single thenRule, .single elseRule, .single loopRule, labelSet]) Controls := by
  have hlabels := (covers_labelSet hu).cons covers_nil fun _ _ _ h => h
  have hloops := (covers_single wrapsEach_loopRule rfl
    (fun n c hfit => .loopBody hfit.1 hfit.2) hu).cons hlabels fun n c hfit hfit' => by
      rcases hfit' with ⟨hkind, -⟩ | h
      · rw [hkind] at hfit
        exact absurd hfit.1 (by decide)
      · exact h
  have helses := (covers_single wrapsEach_elseRule rfl
    (fun n c hfit => .elseBranch hfit.1.1 hfit.1.2 hfit.2) hu).cons hloops fun n c hfit hfit' => by
      rcases hfit' with ⟨hkind, -⟩ | ⟨hkind, -⟩ | h
      · rw [hfit.1.1] at hkind
        exact absurd hkind (by decide)
      · rw [hfit.1.1] at hkind
        contradiction
      · exact h
  refine ((covers_single wrapsEach_thenRule rfl
    (fun n c hfit => .thenBranch (List.mem_singleton.mp hfit.1) hfit.2) hu).cons helses
      fun n c hfit hfit' => ?_).congr fun n c => controls_iff.symm
  have hkind := List.mem_singleton.mp hfit.1
  rcases hfit' with h | ⟨hkind', -⟩ | ⟨hkind', -⟩ | h
  · exact elseBranch?_ne_of_consequence hkind hfit.2 h.2
  · rw [hkind] at hkind'
    exact absurd hkind' (by decide)
  · rw [hkind] at hkind'
    contradiction
  · exact h

/-! ## The pass -/

/-- The visits of the pass are those of its rules, in order of the file. -/
theorem exists_perm_visits {vs : List Visit} (hvs : pass.visits u .traversal = .ok vs) :
    ∃ front, RuleSet.visitsOfAll u .traversal
        [.single thenRule, .single elseRule, .single loopRule, labelSet] 0 = .ok front ∧
      vs.Perm front := by
  obtain ⟨ws, hws, hvs⟩ := bind_eq_ok_iff.mp hvs
  obtain rfl := Except.ok.inj hvs
  obtain ⟨front, hfront, hws⟩ := bind_eq_ok_iff.mp hws
  obtain rfl := Except.ok.inj hws
  rw [RuleSet.visits] at hfront
  rw [List.append_nil]
  exact ⟨front, hfront, List.mergeSort_perm front _⟩

/-- **The pass wraps** exactly what constructs of the file control and is no block. -/
theorem wraps_iff (hu : u.root = .root t) {vs : List Visit}
    (hvs : pass.visits u .traversal = .ok vs) : Wraps vs c ↔ Unblocked t Controls c := by
  obtain ⟨front, hfront, hperm⟩ := exists_perm_visits hvs
  rw [← (covers_rules hu).wraps 0 front hfront c]
  simp only [Wraps, hperm.mem_iff]

/-- **The pass wraps no statement twice.** -/
theorem wrapsOnce_visits (hu : u.root = .root t) {vs : List Visit}
    (hvs : pass.visits u .traversal = .ok vs) : WrapsOnce vs := by
  obtain ⟨front, hfront, hperm⟩ := exists_perm_visits hvs
  refine (hperm.pairwise_iff fun {v w} hne c d hc hd => ?_).mpr
    ((covers_rules hu).once 0 front hfront)
  rw [sameAs, Bool.beq_comm]
  exact hne d c hd hc

theorem exists_wrapping_of_mem (hr : r ∈ pass.rules) :
    ∃ inner : Rule, inner.phase = .traversal ∧ r = wrapping inner := by
  have hrules : pass.rules = [thenRule, elseRule, loopRule, caseRule, defaultRule] := rfl
  rw [hrules] at hr
  simp only [List.mem_cons, List.not_mem_nil, or_false] at hr
  rcases hr with rfl | rfl | rfl | rfl | rfl <;> exact ⟨_, rfl, rfl⟩

/-- **Every visit** is on the way through the file, and names a statement. -/
theorem exists_node?_of_mem_visits {phase : Phase} {vs : List Visit} {v : Visit}
    (hvs : pass.visits u phase = .ok vs) (hv : v ∈ vs) :
    phase = .traversal ∧ ∃ c, v.found.node? "stmt" = some c := by
  obtain ⟨hrule, ms, hms, hfound⟩ := Pass.mem_visits hvs hv
  obtain ⟨inner, hphase, hwrapping⟩ := exists_wrapping_of_mem hrule
  refine ⟨?_, ?_⟩
  · rw [← Pass.phase_of_mem_visits hvs hv, hwrapping]
    exact hphase
  · obtain ⟨-, hfilters⟩ := Rule.offers_of_mem_matchesIn hms hfound
    have hunbraced := hfilters isUnbraced (by
      rw [hwrapping]
      exact List.mem_append_right _ (List.mem_singleton_self _))
    rw [isUnbraced] at hunbraced
    split at hunbraced
    · next c hc => exact ⟨c, hc⟩
    · contradiction

end ProbeWeaver.Braces
