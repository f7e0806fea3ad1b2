import Mathlib.Data.List.Forall2
import Mathlib.Data.List.Lex
import Mathlib.Data.String.Basic
import ProbeWeaver.Proofs.FileTree.Paths
import ProbeWeaver.Proofs.Outcome
import ProbeWeaver.SourceScope

/-!
# Proofs/FileTree/Discovery — the sources that a scope finds

In a tree without links, the sources found are the files that paths lead to and the C sources below
the directories that they lead to, in order and once each, and nothing outside the root or in what
is left out.

* `SourceScope.sources_spec` — what is found, and when nothing is.
-/

namespace ProbeWeaver

/-! ## Lists in order -/

/-- Of two equal elements in a row, the first is kept. -/
theorem eraseReps_cons_cons {α : Type} [BEq α] (a b : α) (l : List α) :
    (a :: b :: l).eraseReps = if a == b then (a :: l).eraseReps else a :: (b :: l).eraseReps := by
  have hloop : ∀ (l : List α) (a : α) (acc : List α), List.eraseRepsBy.loop (· == ·) a l acc =
      acc.reverse ++ List.eraseRepsBy.loop (· == ·) a l [] := by
    intro l
    induction l with
    | nil => intro a acc; exact List.reverse_cons
    | cons b l ih =>
      intro a acc
      rw [List.eraseRepsBy.loop, List.eraseRepsBy.loop]
      cases a == b with
      | true => exact ih a acc
      | false => exact (ih b (a :: acc)).trans (by rw [ih b [a]]; simp)
  show List.eraseRepsBy.loop (· == ·) a (b :: l) [] = _
  rw [List.eraseRepsBy.loop]
  cases a == b with
  | true => rfl
  | false => exact hloop l b [a]

/-- Erasing repetitions loses no element. -/
theorem mem_eraseReps {α : Type} [BEq α] [LawfulBEq α] {x : α} :
    ∀ {l : List α}, x ∈ l.eraseReps ↔ x ∈ l
  | [] => Iff.rfl
  | [_] => Iff.rfl
  | a :: b :: l => by
      rw [eraseReps_cons_cons]
      split
      · next heq =>
        rw [mem_eraseReps, beq_iff_eq.mp heq]
        simp
      · rw [List.mem_cons, mem_eraseReps, List.mem_cons, List.mem_cons, List.mem_cons]
termination_by l => l.length

/-- **What is in order** is strictly so without repetitions. -/
theorem pairwise_lt_eraseReps {α : Type} [LinearOrder α] [BEq α] [LawfulBEq α] :
    ∀ {l : List α}, l.Pairwise (· ≤ ·) → l.eraseReps.Pairwise (· < ·)
  | [], _ => .nil
  | [a], _ => List.pairwise_singleton _ a
  | a :: b :: l, h => by
      obtain ⟨ha, hrest⟩ := List.pairwise_cons.mp h
      rw [eraseReps_cons_cons]
      split
      · refine pairwise_lt_eraseReps (List.pairwise_cons.mpr ⟨fun c hc => ?_, ?_⟩)
        · exact ha c (List.mem_cons_of_mem b hc)
        · exact (List.pairwise_cons.mp hrest).2
      · next hne =>
        refine List.pairwise_cons.mpr ⟨fun c hc => ?_, pairwise_lt_eraseReps hrest⟩
        have hab : a < b := lt_of_le_of_ne (ha b List.mem_cons_self) fun heq =>
          hne (beq_iff_eq.mpr heq)
        rcases List.mem_cons.mp (mem_eraseReps.mp hc) with rfl | hc
        · exact hab
        · exact hab.trans_le ((List.pairwise_cons.mp hrest).1 c hc)
termination_by l => l.length

/-- **The order of places** is that of lists of names. -/
theorem Place.le_iff : ∀ {p q : Place}, p.le q = true ↔ p ≤ q
  | [], q => iff_of_true (by cases q <;> rfl) (not_lt.mp (List.not_lt_nil q))
  | x :: p, [] => iff_of_false Bool.false_ne_true (not_le.mpr (List.nil_lt_cons x p))
  | x :: p, y :: q => by
      rw [Place.le, ← not_lt, List.cons_lt_cons_iff, Bool.or_eq_true, Bool.and_eq_true, beq_iff_eq,
        decide_eq_true_iff, Place.le_iff, ← not_lt]
      rcases lt_trichotomy x y with h | rfl | h
      · simp [h, h.ne', h.asymm]
      · simp
      · simp [h, h.ne', h.asymm]

/-- Places sorted and once each are in strict order. -/
theorem pairwise_lt_sorted (l : List Place) : (l.mergeSort Place.le).eraseReps.Pairwise (· < ·) := by
  refine pairwise_lt_eraseReps (List.Pairwise.imp (fun h => Place.le_iff.mp h)
    (List.pairwise_mergeSort (fun p q r hpq hqr => ?_) (fun p q => ?_) l))
  · exact Place.le_iff.mpr ((Place.le_iff.mp hpq).trans (Place.le_iff.mp hqr))
  · rw [Bool.or_eq_true, Place.le_iff, Place.le_iff]
    exact le_total p q

/-! ## What lies in a directory -/

/-- **A place of a C source**: its name has something before the extension. -/
def Place.IsSource (q : Place) : Prop := ∃ front stem, stem ≠ "" ∧ q = front ++ [stem ++ ".c"]

theorem isSourceName_iff {name : String} :
    isSourceName name = true ↔ ∃ stem, stem ≠ "" ∧ name = stem ++ ".c" := by
  rw [isSourceName]
  constructor
  · intro h
    split at h
    · next c cs hname =>
      refine ⟨String.ofList (c :: cs).reverse, ?_, ?_⟩
      · intro h
        rw [← String.toList_eq_nil_iff, String.toList_ofList, List.reverse_eq_nil_iff] at h
        exact nomatch h
      · rw [← String.toList_inj, String.toList_append, String.toList_ofList,
          ← List.reverse_inj, hname]
        simp
    · exact absurd h Bool.false_ne_true
  · rintro ⟨stem, hstem, rfl⟩
    have hdot : ".c".toList = ['.', 'c'] := rfl
    rw [String.toList_append, hdot, List.reverse_append]
    cases hreverse : stem.toList.reverse with
    | nil => exact absurd (String.toList_eq_nil_iff.mp (List.reverse_eq_nil_iff.mp hreverse)) hstem
    | cons => rfl

theorem Place.isSource_iff {q : Place} :
    (q.getLast?.map isSourceName).getD false = true ↔ q.IsSource := by
  rcases List.eq_nil_or_concat q with rfl | ⟨front, name, rfl⟩
  · refine iff_of_false Bool.false_ne_true ?_
    rintro ⟨front, stem, -, h⟩
    exact absurd h.symm (List.append_ne_nil_of_right_ne_nil _ (List.cons_ne_nil _ _))
  · rw [List.concat_eq_append, List.getLast?_concat, Option.map_some, Option.getD_some,
      isSourceName_iff]
    constructor
    · rintro ⟨stem, hstem, rfl⟩
      exact ⟨front, stem, hstem, rfl⟩
    · rintro ⟨front', stem, hstem, h⟩
      exact ⟨stem, hstem, List.singleton_inj.mp (List.append_inj_right' h rfl)⟩

namespace SourceScope

variable {skip : Place → Bool} {tree t : FileTree} {place p q root here : Place}
  {scope : SourceScope} {path : String} {left paths : List String} {found : List Place}

/-- What is skipped is skipped with all that lies below it. -/
def SkipsBelow (skip : Place → Bool) : Prop := ∀ p r : Place, skip p = true → skip (p ++ r) = true

mutual

/-- **The sources that are collected** at a place: the files below it that are not skipped, if they
are C sources. -/
theorem mem_sourcesOf_iff (hskip : SkipsBelow skip) : ∀ {t : FileTree} {place : Place}, t.IsPlain →
    (q ∈ sourcesOf skip place t ↔ ∃ r bytes, q = place ++ r ∧ t.get? r = some (.file bytes) ∧
      q.IsSource ∧ skip q = false)
  | .file bytes, place, _ => by
      rw [sourcesOf]
      constructor
      · intro h
        split at h
        · next htest =>
          rw [Bool.and_eq_true, Bool.not_eq_true', Place.isSource_iff] at htest
          obtain rfl := List.mem_singleton.mp h
          exact ⟨[], bytes, (List.append_nil q).symm, rfl, htest.2, htest.1⟩
        · exact absurd h List.not_mem_nil
      · rintro ⟨r, bytes', rfl, hget, hsource, hq⟩
        cases r with
        | nil =>
          rw [List.append_nil] at hsource hq ⊢
          rw [hq, Place.isSource_iff.mpr hsource]
          exact List.mem_singleton_self place
        | cons => exact nomatch hget
  | .link _, place, h => absurd rfl (h.linkFree [] _)
  | .directory entries, place, h => by
      rw [sourcesOf]
      constructor
      · intro hq
        split at hq
        · exact absurd hq List.not_mem_nil
        · obtain ⟨⟨name, t⟩, hmem, r, bytes, hplace, hget, hsource⟩ :=
            (mem_sourcesAmong_iff hskip fun entry hentry => h.of_mem hentry).mp hq
          exact ⟨name :: r, bytes, hplace, (h.get?_cons hmem).trans hget, hsource⟩
      · rintro ⟨r, bytes, hbelow, hget, hsource, hq⟩
        have hplace : skip place = false := by
          rw [Bool.eq_false_iff]
          intro hplace
          rw [hbelow, hskip place r hplace] at hq
          contradiction
        rw [hplace, if_neg Bool.false_ne_true]
        cases r with
        | nil => exact nomatch hget
        | cons name r =>
          obtain ⟨t, hlookup, hget⟩ := Option.bind_eq_some_iff.mp hget
          have hmem := (FileTree.lookup_eq_some_iff_mem (h.nodup [] entries rfl)).mp hlookup
          exact (mem_sourcesAmong_iff hskip fun entry hentry => h.of_mem hentry).mpr
            ⟨(name, t), hmem, r, bytes, hbelow, hget, hsource, hq⟩

theorem mem_sourcesAmong_iff (hskip : SkipsBelow skip) :
    ∀ {entries : List (String × FileTree)} {place : Place},
      (∀ entry ∈ entries, entry.2.IsPlain) →
      (q ∈ sourcesAmong skip place entries ↔ ∃ entry ∈ entries, ∃ r bytes,
        q = place ++ entry.1 :: r ∧ entry.2.get? r = some (.file bytes) ∧
          q.IsSource ∧ skip q = false)
  | [], _, _ => iff_of_false List.not_mem_nil fun ⟨_, h, _⟩ => absurd h List.not_mem_nil
  | (name, t) :: entries, place, h => by
      obtain ⟨ht, hrest⟩ := List.forall_mem_cons.mp h
      rw [sourcesAmong, List.mem_append, mem_sourcesOf_iff hskip ht, mem_sourcesAmong_iff hskip hrest,
        List.exists_mem_cons_iff]
      simp only [List.append_assoc, List.singleton_append]

end

/-! ## The bounds of a scope -/

/-- **What is left out** below a root: its history, and what paths seen from it lead to. -/
def LeavesOut (tree : FileTree) (root : Place) (left : List String) (zone : Place) : Prop :=
  ∃ path ∈ historyName :: left, tree.Reaches root path zone

/-- **In bounds**: under the root, and under nothing that is left out. -/
structure InBounds (tree : FileTree) (root : Place) (left : List String) (q : Place) : Prop where
  under : root <+: q
  apart : ∀ zone, LeavesOut tree root left zone → ¬ zone <+: q

/-- **A path asks for a source**: the file that it leads to, or a C source in bounds below the
directory that it leads to. -/
def AsksFor (tree : FileTree) (root : Place) (left : List String) (path : String) (q : Place) :
    Prop :=
  ∃ p, tree.Reaches root path p ∧
    ((∃ bytes, tree.get? p = some (.file bytes)) ∧ q = p ∨
      tree.isDirectory p = true ∧ p <+: q ∧ (∃ bytes, tree.get? q = some (.file bytes)) ∧
        q.IsSource ∧ InBounds tree root left q)

/-- A scope keeps these bounds. -/
structure Keeps (scope : SourceScope) (tree : FileTree) (root : Place) (left : List String) :
    Prop where
  root_eq : scope.root = root
  mem_excluded : ∀ zone, zone ∈ scope.excluded ↔ LeavesOut tree root left zone

theorem isWithin_iff : p.isWithin q = true ↔ q <+: p := List.isPrefixOf_iff_prefix

theorem excludes_iff : scope.excludes q = true ↔ ∃ zone ∈ scope.excluded, zone <+: q := by
  simp only [excludes, List.any_eq_true, isWithin_iff]

theorem skipsBelow_excludes (scope : SourceScope) : SkipsBelow scope.excludes := fun p r h => by
  obtain ⟨zone, hzone, hprefix⟩ := excludes_iff.mp h
  exact excludes_iff.mpr ⟨zone, hzone, hprefix.trans (List.prefix_append p r)⟩

theorem leavingOut_spec (scope : SourceScope) (tree : FileTree) (path : String) :
    (scope.leavingOut tree path).root = scope.root ∧ ∀ zone,
      zone ∈ (scope.leavingOut tree path).excluded ↔
        zone ∈ scope.excluded ∨ scope.resolve tree path = .ok zone := by
  rw [leavingOut]
  cases scope.resolve tree path with
  | error => exact ⟨rfl, fun zone => (or_iff_left nofun).symm⟩
  | ok place =>
    refine ⟨rfl, fun zone => ?_⟩
    rw [List.mem_append, List.mem_singleton, Except.ok.injEq, eq_comm]

/-- **Leaving out one path after the other.** -/
theorem foldl_leavingOut_spec (tree : FileTree) : ∀ (left : List String) (scope : SourceScope),
    (left.foldl (·.leavingOut tree ·) scope).root = scope.root ∧ ∀ zone,
      zone ∈ (left.foldl (·.leavingOut tree ·) scope).excluded ↔
        zone ∈ scope.excluded ∨ ∃ path ∈ left, scope.resolve tree path = .ok zone
  | [], _ => ⟨rfl, fun _ => (or_iff_left fun ⟨_, h, _⟩ => absurd h List.not_mem_nil).symm⟩
  | path :: left, scope => by
      obtain ⟨hroot, hexcluded⟩ := leavingOut_spec scope tree path
      obtain ⟨hroots, hall⟩ := foldl_leavingOut_spec tree left (scope.leavingOut tree path)
      have hresolve (other : String) :
          (scope.leavingOut tree path).resolve tree other = scope.resolve tree other := by
        rw [resolve, hroot, resolve]
      refine ⟨hroots.trans hroot, fun zone => (hall zone).trans ?_⟩
      simp only [hexcluded, or_assoc, List.exists_mem_cons_iff, hresolve]

theorem ofRoot_eq_ok (h : ofRoot tree here path = .ok scope) : ∃ root,
    tree.resolve here path = .ok root ∧ scope = leavingOut { root } tree historyName := by
  rw [ofRoot] at h
  split at h
  · next root hroot => exact ⟨root, hroot, (Except.ok.inj h).symm⟩
  · exact nomatch h

/-- **The scope of a root**, with some paths left out, keeps the bounds that they describe. -/
theorem exists_keeps (htree : tree.IsPlain) (h : ofRoot tree here path = .ok scope)
    (left : List String) : tree.Reaches here path scope.root ∧
      (left.foldl (·.leavingOut tree ·) scope).Keeps tree scope.root left := by
  obtain ⟨root, hroot, rfl⟩ := ofRoot_eq_ok h
  obtain ⟨hscope, hhistory⟩ := leavingOut_spec { root } tree historyName
  obtain ⟨hfold, hleft⟩ := foldl_leavingOut_spec tree left (leavingOut { root } tree historyName)
  have hreaches := (htree.resolve_eq_ok_iff.mp hroot).2
  obtain ⟨e, he⟩ := hreaches.exists_get?
  rw [hscope]
  refine ⟨hreaches, hfold.trans hscope, fun zone => ?_⟩
  rw [hleft, hhistory, or_iff_right List.not_mem_nil, LeavesOut, List.exists_mem_cons_iff]
  simp only [resolve, hscope, htree.resolve_joinPath he]

/-- **A place is accepted** exactly in bounds. -/
theorem Keeps.check_eq_ok_iff (h : scope.Keeps tree root left) :
    scope.check q = .ok () ↔ InBounds tree root left q := by
  rw [check, h.root_eq]
  constructor
  · intro hcheck
    split at hcheck
    · next hunder =>
      split at hcheck
      · exact nomatch hcheck
      · next hnone =>
        refine ⟨isWithin_iff.mp hunder, fun zone hzone hprefix => ?_⟩
        exact List.find?_eq_none.mp hnone zone ((h.mem_excluded zone).mpr hzone)
          (isWithin_iff.mpr hprefix)
    · exact nomatch hcheck
  · rintro ⟨hunder, hapart⟩
    rw [if_pos (isWithin_iff.mpr hunder), List.find?_eq_none.mpr fun zone hzone hwithin =>
      hapart zone ((h.mem_excluded zone).mp hzone) (isWithin_iff.mp hwithin)]

theorem Keeps.excludes_eq_false_iff (h : scope.Keeps tree root left) :
    scope.excludes q = false ↔ ∀ zone, LeavesOut tree root left zone → ¬ zone <+: q := by
  rw [Bool.eq_false_iff, ne_eq, excludes_iff]
  simp only [h.mem_excluded, not_exists, not_and]

/-- **The place of a path** is where it leads, in bounds. -/
theorem Keeps.placeOf_eq_ok_iff (h : scope.Keeps tree root left) (htree : tree.IsPlain)
    {e : FileTree} (he : tree.get? root = some e) :
    scope.placeOf tree path = .ok q ↔ tree.Reaches root path q ∧ InBounds tree root left q := by
  have hresolve (q : Place) : scope.resolve tree path = .ok q ↔ tree.Reaches root path q := by
    rw [resolve, h.root_eq]
    exact htree.resolve_joinPath he
  rw [placeOf, ← hresolve, ← h.check_eq_ok_iff]
  cases scope.resolve tree path with
  | error cause => exact ⟨nofun, fun h => nomatch h.1⟩
  | ok p =>
    dsimp only
    rw [bind_eq_ok_iff]
    constructor
    · rintro ⟨_, hcheck, hp⟩
      obtain rfl := Except.ok.inj hp
      exact ⟨rfl, hcheck⟩
    · rintro ⟨hp, hcheck⟩
      obtain rfl := Except.ok.inj hp
      exact ⟨(), hcheck, rfl⟩

/-! ## What is found -/

/-- The sources at an accepted place. -/
def sourcesFrom (scope : SourceScope) (tree : FileTree) (p : Place) : List Place :=
  match tree.get? p with
  | some (.directory entries) => sourcesOf scope.excludes p (.directory entries)
  | _ => [p]

theorem sourcesAt_eq_ok_iff : scope.sourcesAt tree path = .ok found ↔
    ∃ p, scope.placeOf tree path = .ok p ∧ scope.sourcesFrom tree p = found := by
  rw [sourcesAt, bind_eq_ok_iff]
  refine exists_congr fun p => and_congr_right fun _ => ?_
  rw [sourcesFrom]
  cases tree.get? p with
  | none => exact ⟨Except.ok.inj, congrArg _⟩
  | some e => cases e <;> exact ⟨Except.ok.inj, congrArg _⟩

/-- **The sources at an accepted place**: a file itself, or the C sources in bounds below a
directory. -/
theorem Keeps.mem_sourcesFrom_iff (h : scope.Keeps tree root left) (htree : tree.IsPlain)
    {e : FileTree} (he : tree.get? p = some e) (hp : InBounds tree root left p) :
    q ∈ scope.sourcesFrom tree p ↔
      (∃ bytes, tree.get? p = some (.file bytes)) ∧ q = p ∨
        tree.isDirectory p = true ∧ p <+: q ∧ (∃ bytes, tree.get? q = some (.file bytes)) ∧
          q.IsSource ∧ InBounds tree root left q := by
  rw [sourcesFrom, FileTree.isDirectory, he]
  cases e with
  | file bytes =>
    rw [List.mem_singleton, and_iff_right ⟨bytes, rfl⟩]
    exact (or_iff_left fun h => absurd h.1 Bool.false_ne_true).symm
  | link target => exact absurd he (htree.linkFree p target)
  | directory entries =>
    have hfile : ¬ ∃ bytes, some (FileTree.directory entries) = some (.file bytes) := by
      rintro ⟨bytes, heq⟩
      exact FileTree.noConfusion (Option.some.inj heq)
    dsimp only
    rw [mem_sourcesOf_iff (skipsBelow_excludes scope) (htree.of_get? he),
      h.excludes_eq_false_iff, or_iff_right fun h => hfile h.1]
    constructor
    · rintro ⟨r, bytes, rfl, hget, hsource, hapart⟩
      refine ⟨rfl, List.prefix_append p r, ⟨bytes, ?_⟩, hsource, ?_, hapart⟩
      · rw [FileTree.get?_append, he]
        exact hget
      · exact hp.under.trans (List.prefix_append p r)
    · rintro ⟨-, ⟨r, rfl⟩, ⟨bytes, hget⟩, hsource, hbounds⟩
      rw [FileTree.get?_append, he] at hget
      exact ⟨r, bytes, rfl, hget, hsource, hbounds.apart⟩

/-- **One path** is followed in bounds, and the sources found are those that it asks for. -/
theorem Keeps.sourcesAt_spec (h : scope.Keeps tree root left) (htree : tree.IsPlain)
    {e : FileTree} (he : tree.get? root = some e) (path : String) :
    ((∃ found, scope.sourcesAt tree path = .ok found) ↔
      ∃ p, tree.Reaches root path p ∧ InBounds tree root left p) ∧
    ∀ found, scope.sourcesAt tree path = .ok found → ∀ q,
      (q ∈ found ↔ AsksFor tree root left path q) ∧ (q ∈ found → InBounds tree root left q) := by
  simp only [sourcesAt_eq_ok_iff, h.placeOf_eq_ok_iff htree he]
  constructor
  · constructor
    · rintro ⟨found, p, hp, -⟩
      exact ⟨p, hp⟩
    · rintro ⟨p, hp⟩
      exact ⟨_, p, hp, rfl⟩
  · rintro found ⟨p, ⟨hreaches, hbounds⟩, rfl⟩ q
    obtain ⟨e, he⟩ := hreaches.exists_get?
    rw [h.mem_sourcesFrom_iff htree he hbounds, AsksFor]
    refine ⟨⟨fun hq => ⟨p, hreaches, hq⟩, ?_⟩, ?_⟩
    · rintro ⟨p', hreaches', hq⟩
      rwa [hreaches.unique hreaches']
    · rintro (⟨-, rfl⟩ | ⟨-, -, -, -, hq⟩)
      · exact hbounds
      · exact hq

theorem sourcesAtAll_eq_ok_iff : ∀ {paths : List String} {found : List Place},
    scope.sourcesAtAll tree paths = .ok found ↔ ∃ parts,
      List.Forall₂ (fun path part => scope.sourcesAt tree path = .ok part) paths parts ∧
        found = parts.flatten
  | [], found => by
      rw [sourcesAtAll]
      constructor
      · intro h
        exact ⟨[], .nil, (Except.ok.inj h).symm⟩
      · rintro ⟨_, ⟨⟩, rfl⟩
        rfl
  | path :: paths, found => by
      simp only [sourcesAtAll, bind_eq_ok_iff, sourcesAtAll_eq_ok_iff]
      constructor
      · rintro ⟨part, hpart, _, ⟨parts, hparts, rfl⟩, h⟩
        exact ⟨part :: parts, .cons hpart hparts, (Except.ok.inj h).symm⟩
      · rintro ⟨parts, hall, rfl⟩
        cases hall with
        | cons hpart hparts => exact ⟨_, hpart, _, ⟨_, hparts, rfl⟩, rfl⟩

/-- **Paths succeed together** exactly if each one does, and what they lead to is put in order. -/
theorem sources_eq_ok_iff : scope.sources tree paths = .ok found ↔ ∃ parts,
    List.Forall₂ (fun path part => scope.sourcesAt tree path = .ok part) paths parts ∧
      found = (parts.flatten.mergeSort Place.le).eraseReps := by
  simp only [sources, bind_eq_ok_iff, sourcesAtAll_eq_ok_iff]
  constructor
  · rintro ⟨_, ⟨parts, hparts, rfl⟩, h⟩
    exact ⟨parts, hparts, (Except.ok.inj h).symm⟩
  · rintro ⟨parts, hparts, rfl⟩
    exact ⟨_, ⟨parts, hparts, rfl⟩, rfl⟩

/-- **Discovery succeeds** exactly if every path leads to a place in bounds. -/
theorem Keeps.exists_sources_iff (h : scope.Keeps tree root left) (htree : tree.IsPlain)
    {e : FileTree} (he : tree.get? root = some e) :
    (∃ found, scope.sources tree paths = .ok found) ↔
      ∀ path ∈ paths, ∃ p, tree.Reaches root path p ∧ InBounds tree root left p := by
  simp only [sources_eq_ok_iff, ← (h.sourcesAt_spec htree he _).1, ← exists_forall₂_iff]
  constructor
  · rintro ⟨-, parts, hparts, -⟩
    exact ⟨parts, hparts⟩
  · rintro ⟨parts, hparts⟩
    exact ⟨_, parts, hparts, rfl⟩

/-- A path that leads to no place in bounds leads nowhere, or out of them. -/
theorem not_exists_inBounds_iff :
    (¬ ∃ p, tree.Reaches root path p ∧ InBounds tree root left p) ↔
      (∀ p, ¬ tree.Reaches root path p) ∨ ∃ p, tree.Reaches root path p ∧
        (¬ root <+: p ∨ ∃ zone, LeavesOut tree root left zone ∧ zone <+: p) := by
  constructor
  · intro h
    refine or_iff_not_imp_left.mpr fun hsome => ?_
    obtain ⟨p, hp⟩ := not_forall_not.mp hsome
    refine ⟨p, hp, or_iff_not_imp_left.mpr fun hunder => by_contra fun hnone => ?_⟩
    exact h ⟨p, hp, not_not.mp hunder, fun zone hzone hprefix => hnone ⟨zone, hzone, hprefix⟩⟩
  · rintro (hnone | ⟨p, hp, hout⟩) ⟨p', hp', hbounds⟩
    · exact hnone p' hp'
    · obtain rfl := hp.unique hp'
      rcases hout with hout | ⟨zone, hzone, hprefix⟩
      · exact hout hbounds.under
      · exact hbounds.apart zone hzone hprefix

/-- A source and a note beside a history and a directory with a copy. -/
def vendoredTree : FileTree :=
  .directory [(".git", .directory []), ("main.c", .file .empty), ("notes.txt", .file .empty),
    ("vendor", .directory [("copy.c", .file .empty)])]

theorem isPlain_vendored : vendoredTree.IsPlain := by
  have hname {name : String} (hproper : FileTree.IsProper name)
      (hchars : '/' ∉ name.toList ∧ '\x00' ∉ name.toList) : FileTree.IsEntryName name :=
    ⟨hproper, hchars.1, hchars.2⟩
  refine FileTree.isPlain_directory (by decide) ?_ ?_ <;> simp only [List.forall_mem_cons]
  · exact ⟨hname ⟨rfl, by decide⟩ (by decide), hname ⟨rfl, by decide⟩ (by decide),
      hname ⟨rfl, by decide⟩ (by decide), hname ⟨rfl, by decide⟩ (by decide), List.forall_mem_nil _⟩
  · refine ⟨FileTree.isPlain_directory .nil (List.forall_mem_nil _) (List.forall_mem_nil _),
      FileTree.isPlain_file _, FileTree.isPlain_file _, FileTree.isPlain_directory (by decide) ?_ ?_,
      List.forall_mem_nil _⟩
    · exact List.forall_mem_singleton.mpr (hname ⟨rfl, by decide⟩ (by decide))
    · exact List.forall_mem_singleton.mpr (FileTree.isPlain_file _)

theorem resolve_vendored (excluded : List Place) :
    resolve ⟨[], excluded⟩ vendoredTree ".git" = .ok [".git"] ∧
      resolve ⟨[], excluded⟩ vendoredTree "vendor" = .ok ["vendor"] ∧
        resolve ⟨[], excluded⟩ vendoredTree "." = .ok [] ∧
          resolve ⟨[], excluded⟩ vendoredTree "vendor/../notes.txt" = .ok ["notes.txt"] := by
  have hleads {path : String} {q : Place} (joined : String) (names : List String)
      (hjoined : joinPath (Place.path []) path = joined) (hpath : FileTree.IsPath joined)
      (hsplit : Text.splitAt joined '/' = "" :: names) (h : vendoredTree.Leads 0 [] names q) :
      resolve ⟨[], excluded⟩ vendoredTree path = .ok q := by
    rw [resolve, hjoined]
    refine FileTree.resolve_eq_ok_iff.mpr ⟨hpath, 0, Nat.zero_le _, ?_⟩
    rw [FileTree.startOf, ite_self, hsplit]
    exact .move rfl rfl h
  refine ⟨?_, ?_, ?_, ?_⟩
  · exact hleads "/.git" [".git"] rfl ⟨rfl, rfl⟩ rfl (.enter ⟨rfl, by decide⟩ rfl id (.here _))
  · exact hleads "/vendor" ["vendor"] rfl ⟨rfl, rfl⟩ rfl (.enter ⟨rfl, by decide⟩ rfl id (.here _))
  · exact hleads "/." ["."] rfl ⟨rfl, rfl⟩ rfl (.move rfl rfl (.here _))
  · exact hleads "/vendor/../notes.txt" ["vendor", "..", "notes.txt"] rfl ⟨rfl, rfl⟩ rfl
      (.enter ⟨rfl, by decide⟩ rfl id (.move rfl rfl (.enter ⟨rfl, by decide⟩ rfl id (.here _))))

end SourceScope

end ProbeWeaver
