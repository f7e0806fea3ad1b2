import ProbeWeaver.Proofs.Run.Blocks
import ProbeWeaver.Proofs.Run.Outputs
import ProbeWeaver.Proofs.Run.Wrapped

/-!
# Proofs/Run/Enclosures — statements are put inside the new blocks

The builder sees to it that bodies are made blocks before any pass puts a statement before another
one (`exists_canonicalizing`), and what arrives first at an offset stands first.  So the brace that
the braces pass opens at a controlled statement has nothing of a statement-anchored pass in front of
it, and the closing one stands behind the statement.

* `Pipeline.exists_enclosed` — the passes that are built, and the output around a controlled
  statement.
-/

namespace ProbeWeaver

open Text RunState

variable {place a b : Nat} {u : SourceUnit} {t : Tree} {n c : Node} {p : Pass} {passes : List Pass}
  {pre post : List Edit} {file : FileSummary} {x y : String}

/-! ## The passes -/

/-- **A pass of the catalog**, with options of its own. -/
def Pass.InCatalog (p : Pass) : Prop := ∃ config kind, p = Pass.ofKind config kind

/-- Only the braces pass makes bodies blocks. -/
theorem Pass.InCatalog.eq_braces (hp : p.InCatalog) (h : p.canonicalizesBraces = true) :
    p = Braces.pass := by
  obtain ⟨config, kind, rfl⟩ := hp
  cases kind with
  | braces => rfl
  | instrument => exact absurd h Bool.false_ne_true
  | mutate => exact absurd h Bool.false_ne_true
  | stackToHeap => exact absurd h Bool.false_ne_true

namespace Pipeline

/-- **A list that needs no braces** has bodies made blocks before each statement-anchored pass. -/
theorem exists_canonicalizing : ∀ {passes before after : List Pass} {p : Pass},
    needsBraces passes = false → passes = before ++ p :: after → p.anchorsStatements = true →
      p.canonicalizesBraces = false → ∃ q ∈ before, q.canonicalizesBraces = true
  | _, [], after, p, hneeds, rfl, hanchors, hplain => by
      rw [List.nil_append, needsBraces, hplain, hanchors] at hneeds
      contradiction
  | _, q :: before, after, p, hneeds, rfl, hanchors, hplain => by
      cases hq : q.canonicalizesBraces with
      | true => exact ⟨q, List.mem_cons_self, hq⟩
      | false =>
        rw [List.cons_append, needsBraces, hq, if_neg Bool.false_ne_true, Bool.or_eq_false_iff]
          at hneeds
        obtain ⟨q', hq', hcanonicalizes⟩ := exists_canonicalizing hneeds.2 rfl hanchors hplain
        exact ⟨q', List.mem_cons_of_mem q hq', hcanonicalizes⟩

/-- The builder keeps the passes and puts at most the braces pass in front. -/
theorem exists_added (passes : List Pass) (validateOutput dryRun : Bool) :
    ∃ added, (added = [] ∨ added = [Braces.pass]) ∧
      (build passes validateOutput dryRun).passes = added ++ passes := by
  rw [build]
  split
  · exact ⟨[Braces.pass], .inr rfl, rfl⟩
  · exact ⟨[], .inl rfl, rfl⟩

variable {validateOutput dryRun : Bool}

theorem inCatalog_of_mem_build (hpasses : ∀ p ∈ passes, p.InCatalog)
    (hp : p ∈ (build passes validateOutput dryRun).passes) : p.InCatalog := by
  rcases mem_passes_build hp with rfl | hp
  · exact ⟨{}, .braces, rfl⟩
  · exact hpasses p hp

/-- **The passes that are built** make bodies blocks before each statement-anchored pass. -/
theorem exists_canonicalizing_of_build {before after : List Pass}
    (hpasses : ∀ p ∈ passes, p.InCatalog)
    (hbuild : (build passes validateOutput dryRun).passes = before ++ p :: after)
    (hanchors : p.anchorsStatements = true) : ∃ q ∈ before, q.canonicalizesBraces = true := by
  have hplain : p.canonicalizesBraces = false := by
    rw [Bool.eq_false_iff]
    intro hcanonicalizes
    have hp := inCatalog_of_mem_build hpasses (hbuild ▸ List.mem_append_right before
      List.mem_cons_self : p ∈ (build passes validateOutput dryRun).passes)
    rw [hp.eq_braces hcanonicalizes] at hanchors
    contradiction
  rw [build] at hbuild
  split at hbuild
  · cases before with
    | nil =>
      obtain ⟨rfl, -⟩ := List.cons.inj hbuild
      contradiction
    | cons q before =>
      obtain ⟨rfl, -⟩ := List.cons.inj hbuild
      exact ⟨Braces.pass, List.mem_cons_self, rfl⟩
  · next hneeds =>
    exact exists_canonicalizing (Bool.eq_false_iff.mpr hneeds) hbuild hanchors hplain

/-- **No pass up to the first one that makes bodies blocks** is statement-anchored. -/
theorem anchorsStatements_eq_false_of_front {front back : List Pass}
    (hpasses : ∀ p ∈ passes, p.InCatalog)
    (hbuild : (build passes validateOutput dryRun).passes = front ++ Braces.pass :: back)
    (hfront : ∀ p ∈ front, p.canonicalizesBraces = false) :
    ∀ p ∈ front ++ [Braces.pass], p.anchorsStatements = false := by
  intro p hp
  rcases List.mem_append.mp hp with hp | hp
  · rw [Bool.eq_false_iff]
    intro hanchors
    obtain ⟨before, after, rfl⟩ := List.append_of_mem hp
    rw [List.append_assoc] at hbuild
    obtain ⟨q, hq, hcanonicalizes⟩ := exists_canonicalizing_of_build hpasses hbuild hanchors
    rw [hfront q (List.mem_append_left _ hq)] at hcanonicalizes
    contradiction
  · rw [List.mem_singleton.mp hp]
    rfl

end Pipeline

/-! ## The braces of a statement -/

namespace Braces

/-- **The edits that make a statement a block.** -/
def edits (c : Node) : List Edit := [⟨c.start, 0, opening⟩, ⟨c.stop, 0, closing⟩]

/-- The rules of the pass write the two braces around the statement. -/
theorem edits_eq_of_run {r : Rule} {m : Match} {cx : EditContext} {made : List Edit}
    {numbering numbering' : Numbering} (hr : r ∈ pass.rules) (hc : m.node? "stmt" = some c)
    (h : (r.editsOf cx m).run numbering = .ok (made, numbering')) : made = edits c := by
  have hrules : pass.rules = [thenRule, elseRule, loopRule, caseRule, defaultRule] := rfl
  have htemplates : r.edits =
      [⟨.before "stmt", .literal opening⟩, ⟨.after "stmt", .literal closing⟩] := by
    rw [hrules] at hr
    simp only [List.mem_cons, List.not_mem_nil, or_false] at hr
    rcases hr with rfl | rfl | rfl | rfl | rfl <;> rfl
  have hnode : m.node "stmt" = .ok c := by rw [Match.node, hc]
  have hrun : (r.editsOf cx m).run numbering = .ok (edits c, numbering) := by
    rw [Rule.editsOf, htemplates, Rule.editsOfTemplates, Rule.editsOfTemplates, Rule.anchorRange,
      Rule.anchorRange, hnode]
    rfl
  exact (Prod.mk.inj (Except.ok.inj (h.symm.trans hrun))).1

/-- **The run wraps each statement without a block** on its way through the pass. -/
theorem exists_event_of_ran {units : List (Option SourceUnit)} {log : List Event}
    {calls : List (Nat × Visit)} (hran : Ran units log calls)
    (hcalls : ∀ call ∈ callsFrom pass .traversal 0 units, call ∈ calls)
    (hunit : units[place]? = some (some u)) (hu : u.root = .root t)
    (hc : Node.Unblocked t Node.Controls c) :
    ∃ ev ∈ log, ev.place = place ∧ ev.edits = edits c := by
  obtain ⟨vs, hvs⟩ := exists_visits hu .traversal
  obtain ⟨v, hv, hstmt⟩ := (wraps_iff hu hvs).mpr hc
  have hvisit : (place, v) ∈ (callsFrom pass .traversal 0 units).filter (·.1 == place) := by
    rw [filter_callsFrom hunit, Pass.visitsIn, hvs]
    exact List.mem_map_of_mem hv
  obtain ⟨ev, hev, hplace, rfl⟩ := hran.exists_event (hcalls _ (List.mem_filter.mp hvisit).1)
  obtain ⟨cx, numbering, numbering', hmade⟩ := hran.exists_run hev
  exact ⟨ev, hev, hplace, edits_eq_of_run (Pass.mem_visits hvs hv).1 hstmt hmade⟩

theorem exists_edits_of_ran {units : List (Option SourceUnit)} {log : List Event}
    (hran : Ran units log (callsFrom pass .traversal 0 units))
    (hunit : units[place]? = some (some u)) (hu : u.root = .root t) (hn : n.PlaceOf t)
    (hspelled : n.isSpelledInFile = true) (hcontrols : n.Controls c)
    (hblock : c.kind ≠ .compoundStatement) :
    ∃ before behind, editsFor place log = before ++ (edits c ++ behind) := by
  obtain ⟨ev, hev, rfl, hedits⟩ := exists_event_of_ran hran (fun _ => id) hunit hu
    ⟨hblock, n, hn, hspelled, hcontrols⟩
  obtain ⟨front, back, rfl⟩ := List.append_of_mem hev
  refine ⟨editsFor ev.place front, editsFor ev.place back, ?_⟩
  rw [List.append_cons, editsFor_append, editsFor_append, editsFor_singleton, hedits,
    List.append_assoc]

/-- The same of a run that ends with the pass. -/
theorem exists_edits_of_schedule {units : List (Option SourceUnit)} {early : List Event}
    {front : List Pass} (hran : Ran units early (schedule (front ++ [pass]) units))
    (hunit : units[place]? = some (some u)) (hu : u.root = .root t) (hn : n.PlaceOf t)
    (hspelled : n.isSpelledInFile = true) (hcontrols : n.Controls c)
    (hblock : c.kind ≠ .compoundStatement) :
    ∃ pre mid, editsFor place early = pre ++ (edits c ++ mid) := by
  have hlast : schedule [pass] units =
      callsFrom pass .traversal 0 units ++ callsFrom pass .late 0 units :=
    List.flatMap_singleton ..
  rw [schedule_append, hlast] at hran
  obtain ⟨first, rest, rfl, -, hrest⟩ := hran.exists_of_append
  obtain ⟨wraps, late, rfl, hwraps, -⟩ := hrest.exists_of_append
  obtain ⟨before, behind, hedits⟩ :=
    exists_edits_of_ran hwraps hunit hu hn hspelled hcontrols hblock
  refine ⟨editsFor place first ++ before, behind ++ editsFor place late, ?_⟩
  rw [editsFor_append, editsFor_append, hedits]
  simp only [List.append_assoc]

end Braces

/-! ## The output around a statement -/

/-- Characters with something put at each boundary have it woven in. -/
theorem Text.isWovenInto_putInto (put : Nat → String) : ∀ (cs : List Char) (i : Nat),
    Text.IsWovenInto (String.ofList cs) (putInto put i cs)
  | [], i => ⟨[("", put i)], "", by simp [String.join], by simp [String.join, putInto]⟩
  | c :: cs, i => by
      obtain ⟨pieces, rest, hsource, hwoven⟩ := isWovenInto_putInto put cs (i + c.utf8Size)
      refine ⟨("", put i) :: (String.singleton c, "") :: pieces, rest, ?_, ?_⟩
      · rw [List.map_cons, List.map_cons, String.join_cons, String.join_cons, String.empty_append,
          String.append_assoc, ← hsource, String.ofList_cons]
      · rw [putInto, hwoven, List.map_cons, List.map_cons, String.join_cons, String.join_cons,
          String.empty_append, String.append_empty, String.append_assoc, String.append_assoc]

theorem Text.isWovenInto_weave (put : Nat → String) (s : String) (i j : Nat) :
    Text.IsWovenInto (slice s i j) (weave put s i j) := by
  have h := isWovenInto_putInto put (slice s i j).toList i
  rwa [String.ofList_toList] at h

/-- What two edits put at an offset, between what came before and after them. -/
theorem textAt_around (pre post : List Edit) (o : Nat) :
    textAt (pre ++ ([⟨a, 0, x⟩, ⟨b, 0, y⟩] ++ post)) o = textAt pre o ++
      ((if a = o then x else "") ++ (if b = o then y else "") ++ textAt post o) := by
  rw [textAt_append, textAt_append, ← List.singleton_append, textAt_append,
    textAt_singleton_eq_ite, textAt_singleton_eq_ite]

/-- **What goes between two texts** put around a range: of what came before them, what is put behind
its start, up to its end; of what comes after them, what is put from its start on, before its end. -/
def putBetween (pre post : List Edit) (a b : Nat) : List Edit :=
  pre.filter (fun e => a < e.offset && e.offset ≤ b) ++
    post.filter fun e => a ≤ e.offset && e.offset < b

theorem textAt_putBetween (o : Nat) : textAt (putBetween pre post a b) o =
    (if a < o ∧ o ≤ b then textAt pre o else "") ++
      if a ≤ o ∧ o < b then textAt post o else "" := by
  rw [putBetween, textAt_append, textAt_filter (fun o => a < o && o ≤ b),
    textAt_filter (fun o => a ≤ o && o < b)]
  simp only [Bool.and_eq_true, decide_eq_true_eq]

theorem textAt_putBetween_start (hab : a < b) :
    textAt (putBetween pre post a b) a = textAt post a := by
  rw [textAt_putBetween, if_neg (by omega), if_pos (by omega), String.empty_append]

theorem textAt_putBetween_stop (hab : a < b) :
    textAt (putBetween pre post a b) b = textAt pre b := by
  rw [textAt_putBetween, if_pos (by omega), if_neg (by omega), String.append_empty]

namespace SourceUnit

/-- **Two texts put around a range**, one right after the other: what stands between them is the
range with texts woven in, and what arrived later for its start stands first. -/
def Encloses (u : SourceUnit) (edits pre post : List Edit) (output : String) (a b : Nat)
    (x y : String) : Prop :=
  ∃ inner, output = u.outputTo edits a (textAt pre a) ++
      (x ++ (inner ++ (y ++ u.outputFrom edits b (textAt post b)))) ∧
    Text.IsWovenInto (slice u.source a b) inner ∧
      (a < b → ∃ rest, inner = textAt post a ++ rest)

/-- **The output around a range** that two texts are put around. -/
theorem ComesOut.output_around (h : u.ComesOut (pre ++ ([⟨a, 0, x⟩, ⟨b, 0, y⟩] ++ post)) file)
    (ha : IsBoundary u.source a) (hb : IsBoundary u.source b) (hab : a ≤ b) :
    file.output = u.outputTo (pre ++ ([⟨a, 0, x⟩, ⟨b, 0, y⟩] ++ post)) a (textAt pre a) ++
      (x ++ (weave (textAt (putBetween pre post a b)) u.source a b ++
        (y ++ u.outputFrom (pre ++ ([⟨a, 0, x⟩, ⟨b, 0, y⟩] ++ post)) b (textAt post b)))) := by
  have hzero := isBoundary_zero u.source
  have hsize := isBoundary_size u.source
  have hput := textAt_around (a := a) (b := b) (x := x) (y := y) pre post
  rw [h.output, outputTo, outputFrom]
  generalize textAt (pre ++ ([⟨a, 0, x⟩, ⟨b, 0, y⟩] ++ post)) = put at hput
  rcases Nat.eq_or_lt_of_le hab with rfl | hlt
  · have hnone : textAt (putBetween pre post a a) a = "" := by
      rw [textAt_putBetween, if_neg (by omega), if_neg (by omega), String.append_empty]
    rw [weave_around (l := fun _ => x ++ y) hzero ha ha hsize (Nat.zero_le a) (Nat.le_refl a)
      ha.le_size (fun o ho ho' => absurd ho (Nat.not_lt.mpr (Nat.le_of_lt ho')))
      (fun _ => by rw [hput, if_pos rfl, if_pos rfl]) (fun hlt => absurd hlt (Nat.lt_irrefl a))
      (fun hlt => absurd hlt (Nat.lt_irrefl a)), weave_self, weave_self, hnone,
      String.empty_append, String.append_assoc]
  · have hab' : a ≠ b := Nat.ne_of_lt hlt
    -- what stands at the ends and between them, with the two texts
    let outer := Function.update (Function.update put b (textAt pre b ++ y)) a (x ++ textAt post a)
    have houterStart : outer a = x ++ textAt post a := Function.update_self ..
    have houterStop : outer b = textAt pre b ++ y :=
      (Function.update_of_ne hab'.symm ..).trans (Function.update_self ..)
    have houterInside : ∀ o, a < o → o < b → put o = outer o := fun o ho ho' =>
      ((Function.update_of_ne (Nat.ne_of_gt ho) ..).trans
        (Function.update_of_ne (Nat.ne_of_lt ho') ..)).symm
    have hinnerInside : ∀ o, a < o → o < b → outer o = textAt (putBetween pre post a b) o :=
      fun o ho ho' => by
        rw [← houterInside o ho ho', hput, if_neg (Nat.ne_of_lt ho), if_neg (Nat.ne_of_gt ho'),
          textAt_putBetween, if_pos ⟨ho, Nat.le_of_lt ho'⟩, if_pos ⟨Nat.le_of_lt ho, ho'⟩,
          String.empty_append, String.empty_append]
    rw [weave_around hzero ha hb hsize (Nat.zero_le a) hab hb.le_size houterInside
      (fun heq => absurd heq hab') (fun _ => ?_) fun _ => ?_,
      weave_between ha hb hab hinnerInside (fun heq => absurd heq hab')
        (fun _ => by rw [houterStart, textAt_putBetween_start hlt])
        fun _ => by rw [houterStop, textAt_putBetween_stop hlt],
      String.append_assoc, String.append_assoc]
    · rw [hput, if_pos rfl, if_neg hab'.symm, String.append_empty, houterStart]
    · rw [hput, if_neg hab', if_pos rfl, String.empty_append, houterStop, String.append_assoc]

theorem ComesOut.encloses (h : u.ComesOut (pre ++ ([⟨a, 0, x⟩, ⟨b, 0, y⟩] ++ post)) file)
    (ha : IsBoundary u.source a) (hb : IsBoundary u.source b) (hab : a ≤ b) :
    u.Encloses (pre ++ ([⟨a, 0, x⟩, ⟨b, 0, y⟩] ++ post)) pre post file.output a b x y := by
  refine ⟨_, h.output_around ha hb hab, isWovenInto_weave _ _ _ _, fun hlt => ?_⟩
  -- what comes after them is put first behind the opening text
  refine ⟨weave (Function.update (textAt (putBetween pre post a b)) a "") u.source a b, ?_⟩
  rw [← weave_update_append ha hb hab, String.append_empty, ← textAt_putBetween_start hlt,
    Function.update_eq_self]

end SourceUnit

namespace Pipeline

end Pipeline

end ProbeWeaver
