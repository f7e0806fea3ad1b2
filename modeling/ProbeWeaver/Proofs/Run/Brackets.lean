import Mathlib
import ProbeWeaver.Proofs.Run.Pairing

/-!
# Proofs/Run/Brackets — markers around blocks

An instrument pass puts a marker before every block outside `main` and one behind it.  Between the two
stands the block with what was put into it, its own braces among them, and the markers nest as the
blocks do (`Pipeline.exists_brackets`).  At the end of a block what came earlier stands first, so the
closing brace of a statement that ends there and was made a block comes before the marker, and the
braces between the markers are not in pairs (`Pipeline.perform_emptyLoop`).

* `Tracing.MarksBlocks` — the blocks that a run marks; `SourceUnit.Brackets` — how one is bracketed.
* `SourceUnit.isBalanced_bracketed_iff` — when the braces between the markers are in pairs.
-/

namespace ProbeWeaver

open Text RunState
open Node (PlaceOf Unblocked Controls BlocksClear)

variable {u : SourceUnit} {t : Tree} {m : Match} {cx : EditContext} {made : List Edit}
  {numbering numbering' : Numbering} {mode : Option ProbeMode} {vs : List Visit} {b : Node}
  {units : List (Option SourceUnit)} {log : List Event} {place : Nat}

/-! ## Marked blocks -/

/-- **The block is marked**: it is spelled in the file itself, outside `main`. -/
structure SourceUnit.IsTraced (u : SourceUnit) (b : Node) : Prop where
  place : b ∈ u.root.walk
  kind : b.kind = .compoundStatement
  spelled : b.isSpelledInFile = true
  outside : u.withinMain b = false

namespace Tracing

/-- The opening marker of a block, with its number. -/
def blockStart (id : Nat) : String := "\n" ++ marker (some id) "BRACESTART" [] ++ "\n"

/-- **The markers of a block**, with the number of the opening one. -/
def marks (b : Node × Nat) : List Edit :=
  [⟨b.1.start, 0, blockStart b.2⟩, ⟨b.1.stop, 0, braceEnd⟩]

/-- What the rule of blocks makes of a match. -/
theorem exists_marks_of_run
    (h : (blockRule.editsOf cx m).run numbering = .ok (made, numbering')) :
    ∃ id, made = marks (m.root, id) := by
  have hrun : (blockRule.editsOf cx m).run numbering =
      .ok (marks (m.root, (numbering.next .brace).1), (numbering.next .brace).2) := rfl
  exact ⟨_, (Prod.mk.inj (Except.ok.inj (h.symm.trans hrun))).1⟩

/-- **The rule of blocks** matches the marked blocks, once each. -/
theorem mem_matchesIn_blockRule (hu : u.root = .root t) {ms : List Match}
    (h : blockRule.matchesIn u = .ok ms) :
    m ∈ ms ↔ ∃ b, u.IsTraced b ∧ m = ⟨blockRule.name, b, [("root", b)]⟩ := by
  rw [Rule.mem_matchesIn_iff rfl (Condition.plain_anyOf .compoundStatement) hu h]
  have haccept (n : Node) : blockRule.accept? u ⟨n, [("root", n)]⟩ =
      if n.isSpelledInFile && (!u.withinMain n && true) then
        some ⟨blockRule.name, n, [("root", n)]⟩ else none := rfl
  simp only [haccept, Option.ite_none_right_eq_some, Bool.and_eq_true_iff, Bool.not_eq_true',
    and_true, Option.some.injEq]
  constructor
  · rintro ⟨b, ⟨hplace, hkind⟩, ⟨hspelled, houtside⟩, rfl⟩
    exact ⟨b, ⟨hplace, hkind, hspelled, houtside⟩, rfl⟩
  · rintro ⟨b, hb, rfl⟩
    exact ⟨b, ⟨hb.place, hb.kind⟩, ⟨hb.spelled, hb.outside⟩, rfl⟩

/-- The visit is one of the rule of blocks. -/
def visitsBlock (v : Visit) : Bool := v.rule.name == blockRule.name

theorem exists_visits (hu : u.root = .root t) (mode : Option ProbeMode) (phase : Phase) :
    ∃ vs, (pass mode).visits u phase = .ok vs :=
  (Pass.insertive_ofKind { mode := mode } .instrument).exists_visits hu phase

/-- **The visits of blocks** are the matches of the rule of blocks, in some order. -/
theorem exists_perm_visits (hvs : (pass mode).visits u .traversal = .ok vs) :
    ∃ ms, blockRule.matchesIn u = .ok ms ∧
      (vs.filter visitsBlock).Perm (ms.map fun m => ⟨blockRule, 0, m⟩) := by
  obtain ⟨ws, hws, hvs⟩ := bind_eq_ok_iff.mp hvs
  obtain rfl := Except.ok.inj hvs
  obtain ⟨mine, hmine, hws⟩ := bind_eq_ok_iff.mp hws
  obtain ⟨others, hothers, hws⟩ := bind_eq_ok_iff.mp hws
  obtain rfl := Except.ok.inj hws
  rw [RuleSet.visits, RuleSet.visitsOf, if_pos (show blockRule.phase = .traversal from rfl)] at hmine
  obtain ⟨ms, hms, hmine⟩ := bind_eq_ok_iff.mp hmine
  obtain rfl := Except.ok.inj hmine
  have hnames : ∀ mode, ∀ r ∈ (pass mode).sets.tail.flatMap (·.rules),
      (r.name == blockRule.name) = false := by
    rintro (- | mode)
    · decide
    · cases mode <;> decide
  have hnone : others.filter visitsBlock = [] := List.filter_eq_nil_iff.mpr fun v hv =>
    Bool.eq_false_iff.mp (hnames mode _ (Pass.mem_visitsFrom hothers hv).1)
  have hall : (ms.map fun m => (⟨blockRule, 0, m⟩ : Visit)).filter visitsBlock =
      ms.map fun m => ⟨blockRule, 0, m⟩ := List.filter_eq_self.mpr fun v hv => by
    obtain ⟨m, -, rfl⟩ := List.mem_map.mp hv
    exact beq_self_eq_true _
  refine ⟨ms, hms, ((List.mergeSort_perm _ _).filter visitsBlock).trans ?_⟩
  rw [List.filter_append, hnone, hall, List.append_nil]

/-- **The visits of blocks** go from one block to the next in the file, outer ones first. -/
theorem pairwise_visits (hvs : (pass mode).visits u .traversal = .ok vs) :
    (vs.filter visitsBlock).Pairwise fun v w => v.found.root ≠ w.found.root ∧
      v.found.root.start ≤ w.found.root.start := by
  obtain ⟨ms, hms, hperm⟩ := exists_perm_visits hvs
  have hapart : (vs.filter visitsBlock).Pairwise fun v w => v.found.root ≠ w.found.root := by
    refine (hperm.pairwise_iff fun hne => hne.symm).mpr (List.pairwise_map.mpr ?_)
    refine (Rule.apart_matchesIn hms).imp fun {m m'} hne heq => ?_
    rw [heq, Node.sameAs_self] at hne
    contradiction
  have hsorted := (Pass.preOrder_visits rfl hvs).filter visitsBlock
  refine hapart.and (hsorted.imp fun hle => ?_)
  rcases Visit.preOrderLe_iff.mp hle with hlt | ⟨heq, -⟩
  · exact Nat.le_of_lt hlt
  · exact Nat.le_of_eq heq

/-- **The visits of blocks** are about the marked blocks. -/
theorem isTraced_iff (hu : u.root = .root t) (hvs : (pass mode).visits u .traversal = .ok vs) :
    (∃ v ∈ vs.filter visitsBlock, v.found.root = b) ↔ u.IsTraced b := by
  obtain ⟨ms, hms, hperm⟩ := exists_perm_visits hvs
  simp only [hperm.mem_iff, List.mem_map]
  constructor
  · rintro ⟨v, ⟨m, hm, rfl⟩, rfl⟩
    obtain ⟨b, hb, rfl⟩ := (mem_matchesIn_blockRule hu hms).mp hm
    exact hb
  · intro hb
    exact ⟨_, ⟨_, (mem_matchesIn_blockRule hu hms).mpr ⟨b, hb, rfl⟩, rfl⟩, rfl⟩

/-- The event marks a block of the file. -/
def marksBlock (place : Nat) (ev : Event) : Bool := ev.place == place && visitsBlock ev.visit

/-- **The blocks that a run marks** in a file: all marked blocks, once each, from one to the next,
with their markers among what the run makes of the file. -/
structure MarksBlocks (u : SourceUnit) (place : Nat) (log : List Event) (bs : List (Node × Nat)) :
    Prop where
  traced : ∀ b, b ∈ bs.map Prod.fst ↔ u.IsTraced b
  ordered : bs.Pairwise fun b c => b.1 ≠ c.1 ∧ b.1.start ≤ c.1.start
  cut : ∀ front b back, bs = front ++ b :: back → ∃ before ev behind, log = before ++ ev :: behind ∧
    ev.place = place ∧ ev.edits = marks b ∧ (front.flatMap marks).Sublist (editsFor place before) ∧
      (back.flatMap marks).Sublist (editsFor place behind)

/-- The events of blocks in a file are its visits of blocks. -/
theorem map_visit_filter_marksBlock
    (hran : Ran units log (callsFrom (pass mode) .traversal 0 units))
    (hunit : units[place]? = some (some u)) (hvs : (pass mode).visits u .traversal = .ok vs) :
    (log.filter (marksBlock place)).map (·.visit) = vs.filter visitsBlock := by
  obtain ⟨s, s', -, rfl⟩ := hran.steps
  have hfile := filter_of_calls hran.calls hunit
  rw [Pass.visitsIn, hvs] at hfile
  have hfile : (log.filter (·.place == place)).map (·.visit) = vs := hfile
  rw [← hfile, List.filter_map, List.filter_filter]
  refine congrArg (List.map _) (List.filter_congr fun ev _ => ?_)
  rw [marksBlock, Bool.and_comm]
  rfl

/-- An event of a block made its markers. -/
theorem exists_marks_of_mem {ev : Event}
    (hran : Ran units log (callsFrom (pass mode) .traversal 0 units))
    (hunit : units[place]? = some (some u)) (hvs : (pass mode).visits u .traversal = .ok vs)
    (hev : ev ∈ log.filter (marksBlock place)) :
    ∃ id, ev.edits = marks (ev.visit.found.root, id) := by
  obtain ⟨ms, -, hperm⟩ := exists_perm_visits hvs
  have hvisit : ev.visit ∈ vs.filter visitsBlock :=
    map_visit_filter_marksBlock hran hunit hvs ▸ List.mem_map_of_mem hev
  obtain ⟨m, -, hblock⟩ := List.mem_map.mp (hperm.mem_iff.mp hvisit)
  obtain ⟨cx, numbering, numbering', hmade⟩ := hran.exists_run (List.mem_filter.mp hev).1
  rw [← hblock] at hmade ⊢
  exact exists_marks_of_run hmade

/-- The markers of blocks are among what is made of the file. -/
theorem sublist_editsFor_filter (place : Nat) (l : List Event) :
    ((l.filter (marksBlock place)).flatMap (·.edits)).Sublist (editsFor place l) := by
  have hfilter : l.filter (marksBlock place) =
      (l.filter (·.place == place)).filter fun ev => visitsBlock ev.visit := by
    rw [List.filter_filter]
    refine List.filter_congr fun ev _ => ?_
    rw [marksBlock, Bool.and_comm]
  rw [hfilter]
  exact List.filter_sublist.flatMap _

/-- A list is cut at a member of its filtered list. -/
theorem exists_cut_of_filter_eq {α : Type} {q : α → Bool} {l front back : List α} {a : α}
    (h : l.filter q = front ++ a :: back) :
    ∃ before behind, l = before ++ a :: behind ∧ q a = true ∧ before.filter q = front ∧
      behind.filter q = back := by
  obtain ⟨before, rest, rfl, hfront, hrest⟩ := List.filter_eq_append_iff.mp h
  obtain ⟨skipped, behind, rfl, hnone, ha, hback⟩ := List.filter_eq_cons_iff.mp hrest
  refine ⟨before ++ skipped, behind, (List.append_assoc ..).symm, ha, ?_, hback⟩
  rw [List.filter_append, hfront, List.filter_eq_nil_iff.mpr hnone, List.append_nil]

/-- **A run marks blocks**, whatever else it does. -/
theorem exists_marksBlocks (hran : Ran units log (callsFrom (pass mode) .traversal 0 units))
    (hunit : units[place]? = some (some u)) (hu : u.root = .root t) :
    ∃ bs, MarksBlocks u place log bs := by
  obtain ⟨vs, hvs⟩ := exists_visits hu mode .traversal
  have hvisits := map_visit_filter_marksBlock hran hunit hvs
  have hmarks (ev : Event) : ∃ id, ev ∈ log.filter (marksBlock place) →
      ev.edits = marks (ev.visit.found.root, id) := by
    by_cases hev : ev ∈ log.filter (marksBlock place)
    · exact (exists_marks_of_mem hran hunit hvs hev).imp fun id hid _ => hid
    · exact ⟨0, fun h => absurd h hev⟩
  choose number hnumber using hmarks
  have hedits {l : List Event} (hl : ∀ ev ∈ l, ev ∈ log.filter (marksBlock place)) :
      (l.map fun ev => (ev.visit.found.root, number ev)).flatMap marks = l.flatMap (·.edits) := by
    rw [List.flatMap_map]
    exact List.flatMap_congr fun ev hev => (hnumber ev (hl ev hev)).symm
  refine ⟨(log.filter (marksBlock place)).map fun ev => (ev.visit.found.root, number ev),
    fun b => ?_, ?_, fun front b back hcut => ?_⟩
  · rw [← isTraced_iff hu hvs, ← hvisits, List.map_map]
    simp only [List.mem_map, exists_exists_and_eq_and, Function.comp_apply]
  · have hordered := pairwise_visits hvs
    rw [← hvisits] at hordered
    exact List.pairwise_map.mpr (List.pairwise_map.mp hordered)
  · obtain ⟨early, rest, hlog, rfl, hrest⟩ := List.map_eq_append_iff.mp hcut
    obtain ⟨ev, late, rfl, rfl, rfl⟩ := List.map_eq_cons_iff.mp hrest
    obtain ⟨before, behind, hsplit, hev, hearly, hlate⟩ := exists_cut_of_filter_eq hlog
    rw [hlog] at hedits hnumber
    refine ⟨before, ev, behind, hsplit, beq_iff_eq.mp (Bool.and_eq_true_iff.mp hev).1,
      hnumber ev (List.mem_append_right _ List.mem_cons_self), ?_, ?_⟩
    · rw [hedits fun e he => List.mem_append_left _ he, ← hearly]
      exact sublist_editsFor_filter place before
    · rw [hedits fun e he => List.mem_append_right _ (List.mem_cons_of_mem _ he), ← hlate]
      exact sublist_editsFor_filter place behind

/-! ## Nesting -/

/-- Texts for some members of a list, all of them in a window or none. -/
theorem filter_flatMap_eq {α : Type} {f : α → List Edit} {q : α → Bool} {p : Edit → Bool} :
    ∀ {l : List α}, (∀ a ∈ l, (f a).filter p = if q a then f a else []) →
      (l.flatMap f).filter p = (l.filter q).flatMap f
  | [], _ => rfl
  | a :: l, h => by
      rw [List.flatMap_cons, List.filter_append, h a List.mem_cons_self,
        filter_flatMap_eq fun b hb => h b (List.mem_cons_of_mem a hb), List.filter_cons]
      split
      · rw [List.flatMap_cons]
      · rw [List.nil_append]

/-- The block lies in another one. -/
def liesIn (b c : Node × Nat) : Bool := c.1.isWithin b.1 && !c.1.sameAs b.1

theorem liesIn_self (b : Node × Nat) : liesIn b b = false := by
  rw [liesIn, Node.sameAs_self, Bool.not_true, Bool.and_false]

/-- Another block that lies in a block is strictly between its ends, and no other one is. -/
theorem liesIn_iff {b c : Node × Nat} (h : BlocksClear u.source t) (hb : b.1.PlaceOf t)
    (hbkind : b.1.kind = .compoundStatement) (hc : c.1.PlaceOf t)
    (hckind : c.1.kind = .compoundStatement) (hne : c.1 ≠ b.1) :
    liesIn b c = true ↔ b.1.start < c.1.start ∧ c.1.stop < b.1.stop := by
  have hbare : c.1.tree.isBareToken = false :=
    Node.not_isBareToken_of_isNamed (by rw [Node.isNamed, hckind]; rfl)
  rw [liesIn, Bool.and_eq_true_iff]
  constructor
  · rintro ⟨hwithin, -⟩
    exact h.inside hb hbkind hc hwithin hne hbare
  · intro hinside
    have hspan := h.start_lt_stop hc hckind
    rcases h.blockPosition hc hckind hb hbkind hne with ⟨hwithin, -⟩ | hposition | hposition
    · refine ⟨hwithin, Bool.not_eq_true' _ |>.mpr (Bool.eq_false_iff.mpr fun hsame => hne ?_)⟩
      exact hc.eq_of_sameAs hb hsame
    · omega
    · omega

/-- **The markers nest as the blocks do**: between those of a block go those of the blocks in it. -/
theorem MarksBlocks.putBetween_eq {bs front back : List (Node × Nat)} {b : Node × Nat}
    (hbs : MarksBlocks u place log bs) (hu : u.root = .root t) (h : BlocksClear u.source t)
    (hcut : bs = front ++ b :: back) :
    putBetween (front.flatMap marks) (back.flatMap marks) b.1.start b.1.stop =
      (bs.filter (liesIn b)).flatMap marks := by
  have hblock {c : Node × Nat} (hc : c ∈ bs) : c.1.PlaceOf t ∧ c.1.kind = .compoundStatement := by
    have htraced := (hbs.traced c.1).mp (List.mem_map_of_mem hc)
    exact ⟨(hu ▸ Node.placeOf_root t : u.root.PlaceOf t).of_mem_walk htraced.place, htraced.kind⟩
  have hordered := hcut ▸ hbs.ordered
  obtain ⟨-, hrest, hfront⟩ := List.pairwise_append.mp hordered
  obtain ⟨hback, -⟩ := List.pairwise_cons.mp hrest
  have hmem {c : Node × Nat} (hc : c ∈ front ++ b :: back) : c ∈ bs := hcut ▸ hc
  obtain ⟨hb, hbkind⟩ := hblock (hmem (List.mem_append_right _ List.mem_cons_self))
  have hfilter : bs.filter (liesIn b) = front.filter (liesIn b) ++ back.filter (liesIn b) := by
    rw [hcut, List.filter_append, List.filter_cons, liesIn_self]
    rfl
  rw [hfilter, List.flatMap_append, putBetween]
  congr 1
  · refine filter_flatMap_eq fun c hc => ?_
    obtain ⟨hplace, hkind⟩ := hblock (hmem (List.mem_append_left _ hc))
    obtain ⟨hne, hstart⟩ := hfront c hc b List.mem_cons_self
    have hspan := h.start_lt_stop hplace hkind
    have hlies := liesIn_iff h hb hbkind hplace hkind hne
    have hposition := h.blockPosition hplace hkind hb hbkind hne
    -- what comes before the block starts before it, so it lies around it or ends before it
    rw [if_neg (by rw [hlies]; omega), marks, List.filter_cons_of_neg (by simp; omega),
      List.filter_cons_of_neg (by simp; omega), List.filter_nil]
  · refine filter_flatMap_eq fun c hc => ?_
    obtain ⟨hplace, hkind⟩ := hblock (hmem (List.mem_append_right _ (List.mem_cons_of_mem b hc)))
    obtain ⟨hne, hstart⟩ := hback c hc
    have hspan := h.start_lt_stop hplace hkind
    have hlies := liesIn_iff h hb hbkind hplace hkind hne.symm
    have hposition := h.blockPosition hplace hkind hb hbkind hne.symm
    by_cases hwithin : b.1.start < c.1.start ∧ c.1.stop < b.1.stop
    · rw [if_pos (hlies.mpr hwithin), marks, List.filter_cons_of_pos (by simp; omega),
        List.filter_cons_of_pos (by simp; omega), List.filter_nil]
    · rw [if_neg (hlies.not.mpr hwithin), marks, List.filter_cons_of_neg (by simp; omega),
        List.filter_cons_of_neg (by simp; omega), List.filter_nil]

end Tracing

/-! ## Between the markers -/

/-- **A range between two characters**: what is put inside the range stands between them. -/
theorem Text.exists_weave_between {s : String} {i j k l : Nat} (put : Nat → String)
    (hi : IsBoundary s i) (hk : IsBoundary s k) (hl : IsBoundary s l) (hj : IsBoundary s j)
    (hik : k = i + 1) (hkl : k ≤ l) (hlj : j = l + 1) :
    ∃ inner, weave put s i j =
      put i ++ (slice s i k ++ (inner ++ (slice s l j ++ put j))) := by
  have hfirst : weave (Function.update put k "") s i k = put i ++ slice s i k := by
    have hstart : Function.update put k "" i = put i := Function.update_of_ne (by omega) ..
    rw [← Function.update_eq_self i (Function.update put k ""), hstart,
      ← String.append_empty (s := put i), weave_update_append hi hk (by omega), String.append_empty]
    refine congrArg (put i ++ ·) (weave_of_empty hi hk (by omega) fun o ho ho' => ?_)
    rcases Nat.eq_or_lt_of_le ho with rfl | hlt
    · exact Function.update_self ..
    · obtain rfl : o = k := by omega
      rw [Function.update_of_ne (by omega), Function.update_self]
  have hlast : weave (Function.update put l "") s l j = slice s l j ++ put j := by
    rw [weave_of_empty_before hl hj (by omega) fun o ho ho' => ?_,
      Function.update_of_ne (by omega)]
    obtain rfl : o = l := by omega
    exact Function.update_self ..
  refine ⟨weave (Function.update put l (put l)) s k l, ?_⟩
  rw [weave_cut hi hk hj (by omega) (by omega) (String.empty_append (s := put k)).symm,
    Function.update_eq_self, hfirst, weave_cut hk hl hj hkl (by omega)
      (String.append_empty (s := put l)).symm, hlast]
  simp only [String.append_assoc]

namespace SourceUnit

/-- **What stands between the markers of a block**: its text, with what is put into it. -/
def bracketed (u : SourceUnit) (pre post : List Edit) (b : Node) : String :=
  weave (textAt (putBetween pre post b.start b.stop)) u.source b.start b.stop

/-- **The block is bracketed** by its markers, put around it after some edits and before others.  They
stand in the output with the text of the block between them, and other texts in it.  The closing brace
of a statement around the block is one of those exactly if it ends where the block does.  As long as
the file quotes braces in pairs, those between the markers are in pairs exactly if no statement ends
where the block does and, when statements are made blocks again later, none ends where it starts. -/
structure Brackets (u : SourceUnit) (pre post : List Edit) (again : Prop) (output : String)
    (b : Node × Nat) : Prop where
  stands : output = u.outputTo (pre ++ (Tracing.marks b ++ post)) b.1.start (textAt pre b.1.start) ++
    (Tracing.blockStart b.2 ++ (u.bracketed pre post b.1 ++ (Tracing.braceEnd ++
      u.outputFrom (pre ++ (Tracing.marks b ++ post)) b.1.stop (textAt post b.1.stop))))
  original : Text.IsWovenInto (u.text b.1) (u.bracketed pre post b.1)
  braces : ∃ inner, u.bracketed pre post b.1 =
    textAt post b.1.start ++ ("\x7b" ++ (inner ++ ("\x7d" ++ textAt pre b.1.stop)))
  enclosing : ∀ c, Unblocked u.root.tree Controls c → b.1.isWithin c = true →
    (⟨c.stop, 0, Braces.closing⟩ ∈ putBetween pre post b.1.start b.1.stop ↔ c.stop = b.1.stop)
  balanced : u.QuotesPairs → (IsBalanced (u.bracketed pre post b.1) ↔
    (∀ c, Unblocked u.root.tree Controls c → c.stop ≠ b.1.stop) ∧
      (again → ∀ c, Unblocked u.root.tree Controls c → c.stop ≠ b.1.start))

/-- **All marked blocks of a file are bracketed**, once each.  Each was put between its markers after
some edits and before others, those of the blocks listed in front of it among the first and those of
the blocks behind it among the others; and the markers nest as the blocks do, as those put between the
markers of a block are the markers of the blocks in it. -/
structure BracketsBlocks (u : SourceUnit) (again : Prop) (file : FileSummary) (edits : List Edit)
    (bs : List (Node × Nat)) : Prop where
  comes : u.ComesOut edits file
  traced : ∀ b, b ∈ bs.map Prod.fst ↔ u.IsTraced b
  nodup : (bs.map Prod.fst).Nodup
  brackets : ∀ fore b aft, bs = fore ++ b :: aft → ∃ pre post,
    edits = pre ++ (Tracing.marks b ++ post) ∧
      (fore.flatMap Tracing.marks).Sublist pre ∧ (aft.flatMap Tracing.marks).Sublist post ∧
        putBetween (fore.flatMap Tracing.marks) (aft.flatMap Tracing.marks) b.1.start b.1.stop =
            (bs.filter (Tracing.liesIn b)).flatMap Tracing.marks ∧
          u.Brackets pre post again file.output b

end SourceUnit

/-- What a run makes of a file stands between characters. -/
theorem RunState.Ran.isBoundary {calls : List (Nat × Visit)} {e : Edit} (hran : Ran units log calls)
    (hunit : units[place]? = some (some u)) (hu : u.root = .root t) (hfits : t.SpansFit u.source)
    (he : e ∈ editsFor place log) : IsBoundary u.source e.offset := by
  obtain ⟨ev, hev, rfl, hmade⟩ := exists_event_of_mem_editsFor he
  obtain ⟨s, s', hsteps, rfl⟩ := hran.steps
  obtain ⟨v, x, accepted, draws, hcall, hmakes, -⟩ := hsteps.exists_makes hran.listed hev hmade
  obtain rfl := Option.some.inj (Option.some.inj (hunit.symm.trans hcall.unit))
  obtain ⟨hwithin, hhas⟩ := hcall.listed.insertive.of_offers hu
    (hcall.offers)
  exact (hmakes.insertsAtEdge hcall.listed.insertive hwithin hhas).isBoundary hfits

section Blocks

variable {early later : List Event} {passes front back : List Pass}
  (hunit : units[place]? = some (some u)) (hu : u.root = .root t) (hfits : t.SpansFit u.source)
  (h : BlocksClear u.source t) (hb : b.PlaceOf t) (hkind : b.kind = .compoundStatement)

include h hb hkind

/-- **The block between its braces.** -/
theorem SourceUnit.exists_bracketed (hfits : t.SpansFit u.source) (pre post : List Edit) :
    ∃ inner, u.bracketed pre post b =
      textAt post b.start ++ ("\x7b" ++ (inner ++ ("\x7d" ++ textAt pre b.stop))) := by
  obtain ⟨v, w, i, hbraces⟩ := Node.exists_braceTokens (h.braced b hb hkind) hb
  obtain ⟨hstart, hk⟩ := hfits _ hbraces.first.mem_walk
  obtain ⟨hl, hstop⟩ := hfits _ hbraces.last.mem_walk
  change IsBoundary u.source v.span.start at hstart
  change IsBoundary u.source v.span.stop at hk
  change IsBoundary u.source w.span.start at hl
  change IsBoundary u.source w.span.stop at hstop
  have hspan := h.start_lt_stop hb hkind
  have hends := hbraces.start_lt_stop
  have hopen := size_slice hstart hk (by rw [hbraces.firstStart]; omega)
  have hclose := size_slice hl hstop (by rw [hbraces.lastStop]; omega)
  rw [hbraces.firstText, hbraces.firstStart, show "\x7b".utf8ByteSize = 1 from rfl] at hopen
  rw [hbraces.lastText, hbraces.lastStop, show "\x7d".utf8ByteSize = 1 from rfl] at hclose
  obtain ⟨inner, hinner⟩ := Text.exists_weave_between
    (textAt (putBetween pre post b.start b.stop)) hstart hk hl hstop
    (by rw [hbraces.firstStart]; omega) (hbraces.stop_le_start h.laidOut)
    (by rw [hbraces.lastStop]; omega)
  rw [hbraces.firstText, hbraces.lastText, hbraces.firstStart, hbraces.lastStop,
    textAt_putBetween_start hspan, textAt_putBetween_stop hspan] at hinner
  exact ⟨inner, hinner⟩

include hunit hu

/-- **What came before the markers** and goes behind the start of the block: it leaves braces in pairs
unless a statement ends where the block does. -/
theorem RunState.IsStretchOf.riseOf_behind (hearly : IsStretchOf units place t passes early)
    (hquotes : u.QuotesPairs) :
    riseOf ((editsFor place early).filter fun e => b.start < e.offset && e.offset ≤ b.stop) ≤ 0 ∧
      (riseOf ((editsFor place early).filter fun e => b.start < e.offset && e.offset ≤ b.stop) = 0 ↔
        ((∃ p ∈ passes, p.canonicalizesBraces = true) →
          ∀ c, Unblocked t Controls c → c.stop ≠ b.stop)) ∧
      (riseOf ((editsFor place early).filter fun e => b.start < e.offset && e.offset ≤ b.stop) = 0 →
        ∀ o, 0 ≤ lowAt ((editsFor place early).filter fun e =>
          b.start < e.offset && e.offset ≤ b.stop) o) := by
  have hblock := h.start_lt_stop hb hkind
  refine hearly.riseOf_window (w := fun o => b.start < o && o ≤ b.stop) hunit hu hquotes h.nonempty
    (fun c hc hne => ?_) fun c hc heq => ?_
  all_goals
    have hposition := h.position hc hb hkind
    have hspan := h.nonempty c hc
  · rw [Bool.eq_iff_iff, Bool.and_eq_true, Bool.and_eq_true]
    simp only [decide_eq_true_eq]
    omega
  · simp only [Bool.and_eq_false_iff, Bool.and_eq_true, decide_eq_false_iff_not, decide_eq_true_eq]
    omega

/-- **What comes after the markers** and goes before the end of the block: it leaves braces in pairs
unless a statement ends where the block starts. -/
theorem RunState.IsStretchOf.riseOf_ahead (hlater : IsStretchOf units place t passes later)
    (hquotes : u.QuotesPairs) :
    riseOf ((editsFor place later).filter fun e => b.start ≤ e.offset && e.offset < b.stop) ≤ 0 ∧
      (riseOf ((editsFor place later).filter fun e => b.start ≤ e.offset && e.offset < b.stop) = 0 ↔
        ((∃ p ∈ passes, p.canonicalizesBraces = true) →
          ∀ c, Unblocked t Controls c → c.stop ≠ b.start)) ∧
      (riseOf ((editsFor place later).filter fun e => b.start ≤ e.offset && e.offset < b.stop) = 0 →
        ∀ o, 0 ≤ lowAt ((editsFor place later).filter fun e =>
          b.start ≤ e.offset && e.offset < b.stop) o) := by
  have hblock := h.start_lt_stop hb hkind
  refine hlater.riseOf_window (w := fun o => b.start ≤ o && o < b.stop) hunit hu hquotes h.nonempty
    (fun c hc hne => ?_) fun c hc heq => ?_
  all_goals
    have hposition := h.position hc hb hkind
    have hspan := h.nonempty c hc
  · rw [Bool.eq_iff_iff, Bool.and_eq_true, Bool.and_eq_true]
    simp only [decide_eq_true_eq]
    omega
  · simp only [Bool.and_eq_false_iff, Bool.and_eq_true, decide_eq_false_iff_not, decide_eq_true_eq]
    omega

include hfits

omit h hb hkind in
/-- **What goes between the markers** stands between characters, and is lowest at its ends. -/
theorem SourceUnit.forall_putBetween {more : List Pass} (hquotes : u.QuotesPairs)
    (hearly : IsStretchOf units place t passes early)
    (hlater : IsStretchOf units place t more later) :
    ∀ e ∈ putBetween (editsFor place early) (editsFor place later) b.start b.stop,
      (IsBoundary u.source e.offset ∧ b.start ≤ e.offset ∧ e.offset ≤ b.stop) ∧
        LowAtEnds e.text := by
  refine List.forall_mem_append.mpr ⟨fun e he => ?_, fun e he => ?_⟩
  all_goals
    obtain ⟨he, hin⟩ := List.mem_filter.mp he
    simp only [Bool.and_eq_true, decide_eq_true_eq] at hin
  · exact ⟨⟨hearly.ran.isBoundary hunit hu hfits he, by omega⟩,
      (hearly.isPaired hunit hu hquotes).lowAtEnds e he⟩
  · exact ⟨⟨hlater.ran.isBoundary hunit hu hfits he, by omega⟩,
      (hlater.isPaired hunit hu hquotes).lowAtEnds e he⟩

/-- **The braces between the markers** of a block are in pairs, unless a statement without a block ends
where the block does, or, when statements are made blocks again later, where it starts. -/
theorem SourceUnit.isBalanced_bracketed_iff (hquotes : u.QuotesPairs)
    (hearly : IsStretchOf units place t (front ++ [Tracing.pass mode]) early)
    (hcanonicalizes : ∃ p ∈ front, p.canonicalizesBraces = true)
    (hlater : IsStretchOf units place t (Tracing.pass mode :: back) later) :
    IsBalanced (u.bracketed (editsFor place early) (editsFor place later) b) ↔
      (∀ c, Unblocked t Controls c → c.stop ≠ b.stop) ∧
        ((∃ p ∈ back, p.canonicalizesBraces = true) →
          ∀ c, Unblocked t Controls c → c.stop ≠ b.start) := by
  have hspan := Nat.le_of_lt (h.start_lt_stop hb hkind)
  obtain ⟨hstart, hstop⟩ := hfits _ hb.mem_walk
  obtain ⟨hle, hends, hlow⟩ := hearly.riseOf_behind hunit hu h hb hkind hquotes
  obtain ⟨hle', hstarts, hlow'⟩ := hlater.riseOf_ahead hunit hu h hb hkind hquotes
  have hagain : (∃ p ∈ Tracing.pass mode :: back, p.canonicalizesBraces = true) ↔
      ∃ p ∈ back, p.canonicalizesBraces = true := by
    rw [List.exists_mem_cons_iff]
    exact or_iff_right Bool.false_ne_true
  rw [forall_prop_of_true (hcanonicalizes.imp fun p hp => hp.imp_left (List.mem_append_left _))]
    at hends
  rw [hagain] at hstarts
  rw [← hends, ← hstarts]
  have hown : IsBalanced (slice u.source b.start b.stop) :=
    hquotes.text hu hb (by rw [Node.isNamed, hkind]; rfl)
  have hwithin := forall_putBetween (b := b) hunit hu hfits hquotes hearly hlater
  constructor
  · intro hbalanced
    have hrise := rise_weave hstart hstop hspan fun e he => (hwithin e he).1
    rw [show rise (weave _ _ _ _).toList = 0 from hbalanced.1, hown.1, putBetween, riseOf_append]
      at hrise
    omega
  · rintro ⟨hfirst, hsecond⟩
    refine isBalanced_weave hstart hstop hspan (fun e he => (hwithin e he).1) hown
      (fun e he => (hwithin e he).2) (fun o => ?_) ?_
    · have := hlow hfirst o
      have := hlow' hsecond o
      rw [putBetween, lowAt_append]
      omega
    · rw [putBetween, riseOf_append, hfirst, hsecond]
      rfl

/-- **A marked block is bracketed.** -/
theorem SourceUnit.brackets_of_stretches {file : FileSummary} {id : Nat}
    (hearly : IsStretchOf units place t (front ++ [Tracing.pass mode]) early)
    (hcanonicalizes : ∃ p ∈ front, p.canonicalizesBraces = true)
    (hlater : IsStretchOf units place t (Tracing.pass mode :: back) later)
    (hcomes : u.ComesOut (editsFor place early ++ (Tracing.marks (b, id) ++ editsFor place later))
      file) :
    u.Brackets (editsFor place early) (editsFor place later)
      (∃ p ∈ back, p.canonicalizesBraces = true) file.output (b, id) := by
  have htree : u.root.tree = t := by rw [hu]; rfl
  have hspan := h.start_lt_stop hb hkind
  obtain ⟨hstart, hstop⟩ := hfits _ hb.mem_walk
  refine ⟨hcomes.output_around hstart hstop (Nat.le_of_lt hspan), isWovenInto_weave _ _ _ _,
    u.exists_bracketed h hb hkind hfits _ _, ?_, ?_⟩
  · rw [htree]
    intro c hc hwithin
    have hplace : c.PlaceOf t := by
      obtain ⟨-, n, hn, -, hcontrols⟩ := hc
      exact hcontrols.placeOf hn
    have haround := hb.span_isWithin h.laidOut hplace hwithin
    dsimp only
    constructor
    · intro hmem
      rcases List.mem_append.mp hmem with hmem | hmem
      all_goals
        have hin := (List.mem_filter.mp hmem).2
        simp only [Bool.and_eq_true, decide_eq_true_eq] at hin
        omega
    · intro heq
      obtain ⟨ev, hev, rfl, hedits⟩ := hearly.wraps
        (hcanonicalizes.imp fun p hp => hp.imp_left (List.mem_append_left _)) c hc
      refine List.mem_append_left _ (List.mem_filter.mpr ⟨List.mem_flatMap.mpr ⟨ev, ?_, ?_⟩, ?_⟩)
      · exact List.mem_filter.mpr ⟨hev, beq_self_eq_true ev.place⟩
      · rw [hedits]
        exact .tail _ (.head _)
      · simp only [Bool.and_eq_true, decide_eq_true_eq]
        omega
  · rw [htree]
    exact fun hquotes => isBalanced_bracketed_iff hunit hu hfits h hb hkind hquotes hearly
      hcanonicalizes hlater

end Blocks

/-! ## Around an instrument pass -/

/-- **A run around one pass**: the stretch of the passes before it, its own with its way through the
files first, and that of the passes behind it. -/
structure RunState.RanAround (units : List (Option SourceUnit)) (front : List Pass) (p : Pass)
    (back : List Pass) (before mine late after : List Event) : Prop where
  whole : Ran units (before ++ ((mine ++ late) ++ after)) (schedule (front ++ p :: back) units)
  before : Ran units before (schedule front units)
  own : Ran units (mine ++ late) (schedule [p] units)
  mine : Ran units mine (callsFrom p .traversal 0 units)
  after : Ran units after (schedule back units)

theorem RunState.Ran.exists_around {front back : List Pass} {p : Pass}
    (h : Ran units log (schedule (front ++ p :: back) units)) :
    ∃ before mine late after, log = before ++ ((mine ++ late) ++ after) ∧
      RanAround units front p back before mine late after := by
  have hschedule : schedule (front ++ p :: back) units =
      schedule front units ++ (schedule [p] units ++ schedule back units) := by
    rw [schedule_append, ← schedule_append [p]]
    rfl
  have hpass : schedule [p] units = callsFrom p .traversal 0 units ++ callsFrom p .late 0 units :=
    List.flatMap_singleton ..
  obtain ⟨before, rest, rfl, hbefore, hrest⟩ := (hschedule ▸ h).exists_of_append
  obtain ⟨own, after, rfl, hown, hafter⟩ := hrest.exists_of_append
  obtain ⟨mine, late, rfl, hmine, -⟩ := (hpass ▸ hown).exists_of_append
  exact ⟨before, mine, late, after, rfl, h, hbefore, hown, hmine, hafter⟩

/-- **A marked block cuts the run in two**: the stretch that ends before its markers, with those of
the blocks listed in front of it, and the stretch that starts behind them with the others. -/
theorem Tracing.MarksBlocks.exists_stretches {front back : List Pass}
    {before mine late after : List Event} {bs fore aft : List (Node × Nat)} {b : Node × Nat}
    (hbs : MarksBlocks u place mine bs) (hunit : units[place]? = some (some u))
    (hu : u.root = .root t) (hcatalog : ∀ p ∈ front ++ pass mode :: back, p.InCatalog)
    (h : RanAround units front (pass mode) back before mine late after)
    (hcut : bs = fore ++ b :: aft) :
    ∃ early later, editsFor place (before ++ ((mine ++ late) ++ after)) =
        editsFor place early ++ (marks b ++ editsFor place later) ∧
      (fore.flatMap marks).Sublist (editsFor place early) ∧
      (aft.flatMap marks).Sublist (editsFor place later) ∧
      IsStretchOf units place t (front ++ [pass mode]) early ∧
      IsStretchOf units place t (pass mode :: back) later := by
  obtain ⟨m₁, ev, m₂, rfl, rfl, hmarks, hfore, haft⟩ := hbs.cut fore b aft hcut
  -- the events before and after the one that marks the block
  have hsplit : before ++ ((m₁ ++ ev :: m₂) ++ late ++ after) =
      (before ++ m₁) ++ (ev :: ((m₂ ++ late) ++ after)) := by
    simp only [List.append_assoc, List.cons_append]
  obtain ⟨hupTo, hfrom⟩ := (hsplit ▸ h.whole).cut
  have hbehind := (show Ran _ ([ev] ++ ((m₂ ++ late) ++ after)) _ from hfrom).cut.2
  have hown := h.own
  rw [List.append_assoc, List.cons_append] at hown
  obtain ⟨hfirst, hsecond⟩ : IsStretchOf units ev.place t [pass mode] m₁ ∧
      IsStretchOf units ev.place t [pass mode] (m₂ ++ late) :=
    IsStretchOf.of_cut hown (hcatalog _ (List.mem_append_right front (.head back))) rfl
  have hearly := (IsStretchOf.of_ran h.before hunit hu fun p hp =>
    hcatalog p (List.mem_append_left _ hp)).append hfirst hupTo
  have hlater := hsecond.append (IsStretchOf.of_ran h.after hunit hu fun p hp =>
    hcatalog p (List.mem_append_right _ (.tail _ hp))) hbehind
  refine ⟨before ++ m₁, (m₂ ++ late) ++ after, ?_, ?_, ?_, hearly, hlater⟩
  · rw [hsplit, ← hmarks, ← editsFor_singleton ev, ← editsFor_append, ← editsFor_append]
    rfl
  · rw [editsFor_append]
    exact hfore.trans (List.sublist_append_right _ _)
  · rw [editsFor_append, editsFor_append, List.append_assoc]
    exact haft.trans (List.sublist_append_left _ _)

namespace Pipeline

/-- **Block markers bracket their block**, and nest as the blocks do.  Whatever the passes of the
catalog and the files, as long as the parser's spans fit the texts: the run succeeds, and in every file
whose blocks stand clear each instrument pass brackets all marked blocks.  The braces between the
markers of a block are in pairs unless a statement that is made a block ends where the block does. -/
theorem exists_brackets (passes : List Pass) (hpasses : ∀ p ∈ passes, p.InCatalog)
    (validateOutput dryRun : Bool) (files : List SourceFile)
    (hfiles : ∀ file ∈ files, file.SpansFit) :
    ∃ summary, ((build passes validateOutput dryRun).perform files).1 = .ok summary ∧
      ∀ front mode back,
        (build passes validateOutput dryRun).passes = front ++ Tracing.pass mode :: back →
          ∀ (place : Nat) (u : SourceUnit), (files.map (·.unit?))[place]? = some (some u) →
            BlocksClear u.source u.root.tree → ∃ file edits bs, summary.files[place]? = some file ∧
              u.BracketsBlocks (∃ p ∈ back, p.canonicalizesBraces = true) file edits bs := by
  have hcatalog : ∀ p ∈ (build passes validateOutput dryRun).passes, p.InCatalog := fun p hp =>
    inCatalog_of_mem_build hpasses hp
  obtain ⟨summary, log, slots, hrun, hsteps, hlog, hcalls, hout⟩ :=
    exists_outputs_of_ofKind (build passes validateOutput dryRun) hcatalog files hfiles
  refine ⟨summary, hrun, fun front mode back hbuild place u hunit h => ?_⟩
  rw [hbuild] at hcatalog hlog
  obtain ⟨before, mine, late, after, rfl, haround⟩ := Ran.exists_around
    ⟨hlog, hcalls, _, _, hsteps, units_start files⟩
  obtain ⟨t, hu⟩ := isRooted_units files u (List.mem_of_getElem? hunit)
  have htree : u.root.tree = t := by rw [hu]; rfl
  rw [htree] at h
  obtain ⟨file, hfile, hcomes⟩ := hout place u hunit
  obtain ⟨bs, hbs⟩ := Tracing.exists_marksBlocks haround.mine hunit hu
  refine ⟨file, _, bs, hfile, hcomes, hbs.traced, List.pairwise_map.mpr (hbs.ordered.imp And.left),
    fun fore b aft hcut => ?_⟩
  obtain ⟨early, later, hedits, hfore, haft, hearly, hlater⟩ :=
    hbs.exists_stretches hunit hu hcatalog haround hcut
  rw [hedits] at hcomes ⊢
  have hb := (hbs.traced b.1).mp
    (List.mem_map_of_mem (hcut ▸ List.mem_append_right fore (.head aft)))
  exact ⟨_, _, rfl, hfore, haft, hbs.putBetween_eq hu h hcut,
    SourceUnit.brackets_of_stretches hunit hu
      (spansFit_units hfiles (List.mem_of_getElem? hunit) hu) h
      ((hu ▸ Node.placeOf_root t : u.root.PlaceOf t).of_mem_walk hb.place) hb.kind hearly
      (exists_canonicalizing_of_build hpasses hbuild rfl) hlater hcomes⟩

/-! ## A loop that ends with its block -/

/-- A function with a loop that a condition controls, and that ends with its block. -/
def emptyLoopText : String := "void f(int x) \x7b if (x) while (x) \x7b \x7d \x7d\n"

/-- The tree of the function. -/
def emptyLoopTree : Tree :=
  .node .sourceUnit none ⟨0, 39⟩ false
    [.node .functionDefinition none ⟨0, 38⟩ false
      [.node (.other "primitive_type") (some .type) ⟨0, 4⟩ false [],
        .node .functionDeclarator (some .declarator) ⟨5, 13⟩ false
          [.node .identifier (some .declarator) ⟨5, 6⟩ false [],
            .node (.other "parameter_list") (some .parameters) ⟨6, 13⟩ false
              [.node (.token "(") none ⟨6, 7⟩ false [],
                .node .parameterDeclaration none ⟨7, 12⟩ false
                  [.node (.other "primitive_type") (some .type) ⟨7, 10⟩ false [],
                    .node .identifier (some .declarator) ⟨11, 12⟩ false []],
                .node (.token ")") none ⟨12, 13⟩ false []]],
        .node .compoundStatement (some .body) ⟨14, 38⟩ false
          [.node (.token "\x7b") none ⟨14, 15⟩ false [],
            .node .ifStatement none ⟨16, 36⟩ false
              [.node (.token "if") none ⟨16, 18⟩ false [],
                .node .parenthesizedExpression (some .condition) ⟨19, 22⟩ false
                  [.node (.token "(") none ⟨19, 20⟩ false [],
                    .node .identifier none ⟨20, 21⟩ false [],
                    .node (.token ")") none ⟨21, 22⟩ false []],
                .node .whileStatement (some .consequence) ⟨23, 36⟩ false
                  [.node (.token "while") none ⟨23, 28⟩ false [],
                    .node .parenthesizedExpression (some .condition) ⟨29, 32⟩ false
                      [.node (.token "(") none ⟨29, 30⟩ false [],
                        .node .identifier none ⟨30, 31⟩ false [],
                        .node (.token ")") none ⟨31, 32⟩ false []],
                    .node .compoundStatement (some .body) ⟨33, 36⟩ false
                      [.node (.token "\x7b") none ⟨33, 34⟩ false [],
                        .node (.token "\x7d") none ⟨35, 36⟩ false []]]],
            .node (.token "\x7d") none ⟨37, 38⟩ false []]]]

/-- The function as a file. -/
def emptyLoopFile : SourceFile := ⟨"t.c", .ok emptyLoopText, fun _ => emptyLoopTree⟩

/-- The function as a unit. -/
def emptyLoopUnit : SourceUnit :=
  ⟨"t.c", emptyLoopText, .root emptyLoopTree, NameTable.build emptyLoopText (.root emptyLoopTree)⟩

theorem spansFit_emptyLoop : ∀ file ∈ [emptyLoopFile], file.SpansFit :=
  SourceFile.spansFit_singleton (by decide)

theorem blocksClear_emptyLoop : BlocksClear emptyLoopText emptyLoopTree :=
  Node.blocksClear_of_walk (by decide) (by decide +kernel) (by decide)

theorem quotesPairs_emptyLoop : emptyLoopUnit.QuotesPairs where
  constructs := by decide +kernel
  spellings := by decide +kernel

/-- The blocks of the function in a run: the loop's stands between the markers of the function's. -/
theorem exists_brackets_of_emptyLoop :
    ∃ summary, ((build [Pass.ofKind {} .instrument] false true).perform [emptyLoopFile]).1 =
        .ok summary ∧
      ∃ file edits bs, summary.files[0]? = some file ∧
        emptyLoopUnit.BracketsBlocks (∃ p ∈ ([] : List Pass), p.canonicalizesBraces = true) file
          edits bs ∧ emptyLoopUnit.QuotesPairs := by
  have hcatalog : ∀ p ∈ [Pass.ofKind {} .instrument], p.InCatalog :=
    List.forall_mem_singleton.mpr ⟨{}, .instrument, rfl⟩
  obtain ⟨summary, hrun, hout⟩ :=
    exists_brackets [Pass.ofKind {} .instrument] hcatalog false true [emptyLoopFile]
      spansFit_emptyLoop
  obtain ⟨file, edits, bs, hfile, hbrackets⟩ :=
    hout [Braces.pass] none [] rfl 0 emptyLoopUnit rfl blocksClear_emptyLoop
  exact ⟨summary, hrun, file, edits, bs, hfile, hbrackets, quotesPairs_emptyLoop⟩

/-- What the run puts in front of the marker of the function's block. -/
def emptyLoopHead : String := "/*I::*/ extern int print_flag_inst[2];\nvoid f(int x) "

/-- What stands between the opening markers of the function's block and of the loop's. -/
def emptyLoopMiddle : String :=
  "\x7b /*I:ID0:FUNCTIONENTER:void:f:*/\n\n/*I:ID0:INSERTIONSITE:*/" ++
    Probe.statement .inst 0 "INST:0" [] ++ "if (x) \x7b\n\n/*I:ID1:INSERTIONSITE:*/" ++
      Probe.statement .inst 1 "INST:1" [] ++ "while (x) "

/-- The function in a run, with the edits accepted so far. -/
def emptyLoopSlot (edits : EditSet) : FileSlot :=
  .parsed { unit := emptyLoopUnit, parse := fun _ => emptyLoopTree, edits }

/-- The loop as a block. -/
def emptyLoopWrap : EditSet := ⟨[⟨23, 0, Braces.opening⟩, ⟨36, 0, Braces.closing⟩], 2⟩

/-- The function with its markers; the one that ends the loop's block came behind the brace. -/
def emptyLoopMarks : List Edit :=
  [⟨14, 0, Tracing.blockStart 0⟩,
    ⟨16, 0, "/*I:ID0:FUNCTIONENTER:void:f:*/\n\n/*I:ID0:INSERTIONSITE:*/" ++
      Probe.statement .inst 0 "INST:0" []⟩,
    ⟨23, 0, "\x7b\n\n/*I:ID1:INSERTIONSITE:*/" ++ Probe.statement .inst 1 "INST:1" []⟩,
    ⟨33, 0, Tracing.blockStart 1⟩, ⟨36, 0, "\n\x7d" ++ Tracing.braceEnd⟩,
    ⟨38, 0, Tracing.braceEnd⟩]

/-- The declaration of the flags. -/
def emptyLoopFlags : Edit := ⟨0, 0, "/*I::*/ extern int print_flag_inst[2];\n"⟩

/-- The numbers drawn in the function. -/
def emptyLoopNumbers : Numbering := ⟨#v[2, 0, 1, 2, 0, 0, 0, 0, 0, 0, 0, 0, 0, 0, 0, 0, 0]⟩

theorem runOn_braces_emptyLoop : FileSlot.runOn Braces.pass [emptyLoopFile.slot] {} =
    .ok ([emptyLoopSlot emptyLoopWrap], {}) := by
  with_unfolding_all rfl

set_option maxRecDepth 20000 in
theorem runOnAt_traversal_emptyLoop :
    FileSlot.runOnAt (Tracing.pass none) .traversal [emptyLoopSlot emptyLoopWrap] {} =
      .ok ([emptyLoopSlot ⟨emptyLoopMarks, 9⟩], emptyLoopNumbers) := by
  cbv

set_option maxRecDepth 20000 in
theorem runOnAt_late_emptyLoop :
    FileSlot.runOnAt (Tracing.pass none) .late [emptyLoopSlot ⟨emptyLoopMarks, 9⟩] emptyLoopNumbers =
      .ok ([emptyLoopSlot ⟨emptyLoopFlags :: emptyLoopMarks, 10⟩], emptyLoopNumbers) := by
  with_unfolding_all rfl

/-- What the passes make of the function. -/
theorem outcome_emptyLoop : (build [Pass.ofKind {} .instrument] false true).outcome [emptyLoopFile] =
    (do
      let summaries ←
        FileSlot.finishAll false [emptyLoopSlot ⟨emptyLoopFlags :: emptyLoopMarks, 10⟩]
      return ⟨summaries, emptyLoopNumbers, ["braces", "instrument"]⟩) := by
  have hpasses : FileSlot.runAll (build [Pass.ofKind {} .instrument] false true).passes
      ([emptyLoopFile].map (·.slot)) {} =
        .ok ([emptyLoopSlot ⟨emptyLoopFlags :: emptyLoopMarks, 10⟩], emptyLoopNumbers) :=
    bind_eq_ok_iff.mpr ⟨_, runOn_braces_emptyLoop, bind_eq_ok_iff.mpr
      ⟨_, bind_eq_ok_iff.mpr ⟨_, runOnAt_traversal_emptyLoop, runOnAt_late_emptyLoop⟩, rfl⟩⟩
  rw [outcome, hpasses]
  rfl

set_option maxRecDepth 20000 in
/-- **A block that its markers do not bracket**: the loop ends with its block and is made a block itself,
so the brace that closes the new block comes in front of the marker that is to end the old one.  With
either end marker the braces behind the loop's marker are not in pairs; behind the function's they are
with the last one only, and there the function's own closing brace is among them. -/
theorem perform_emptyLoop :
    (∀ file ∈ [emptyLoopFile], file.SpansFit) ∧ BlocksClear emptyLoopText emptyLoopTree ∧
    ((build [Pass.ofKind {} .instrument] false true).perform [emptyLoopFile]).1.toOption.map
        (fun summary => summary.files.map (·.output)) =
      some [emptyLoopHead ++ (Tracing.blockStart 0 ++ (emptyLoopMiddle ++ (Tracing.blockStart 1 ++
        ("\x7b \x7d\n\x7d" ++ (Tracing.braceEnd ++ (" \x7d" ++ (Tracing.braceEnd ++ "\n")))))))] ∧
      ¬ IsBalanced "\x7b \x7d\n\x7d" ∧
        ¬ IsBalanced ("\x7b \x7d\n\x7d" ++ (Tracing.braceEnd ++ " \x7d")) ∧
          ¬ IsBalanced (emptyLoopMiddle ++ (Tracing.blockStart 1 ++ "\x7b \x7d\n\x7d")) := by
  rw [perform_eq, outcome_emptyLoop]
  exact ⟨spansFit_emptyLoop, blocksClear_emptyLoop, by decide +kernel⟩

end Pipeline

end ProbeWeaver
