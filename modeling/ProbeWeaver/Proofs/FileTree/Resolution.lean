import ProbeWeaver.FileTree.Basic

/-!
# Proofs/FileTree/Resolution — where names lead

Following names from a place is a relation, `Leads`, which counts the links that are followed.
Resolution succeeds exactly if the names lead somewhere through no more links than it may follow, so
where a path leads does not depend on how many that are.

* `FileTree.resolveNames_eq_ok_iff` — resolution and the relation.
* `FileTree.Leads.append_iff` — names followed in two stretches.
-/

namespace ProbeWeaver.FileTree

variable {root e : FileTree} {p q q' r : Place} {name target : String} {names rest : List String}
  {n n' links : Nat} {path : String}

/-! ## Entries -/

theorem get?_append : ∀ (t : FileTree) (p q : Place), t.get? (p ++ q) = (t.get? p).bind (·.get? q)
  | t, [], q => by rw [List.nil_append, get?, Option.bind_some]
  | .file _, _ :: _, _ => rfl
  | .link _, _ :: _, _ => rfl
  | .directory entries, name :: p, q => by
      rw [List.cons_append, get?, get?]
      cases entries.lookup name with
      | none => rfl
      | some t => exact get?_append t p q

/-- **An entry stands in a directory.** -/
theorem isDirectory_of_get?_snoc (h : root.get? (p ++ [name]) = some e) :
    root.isDirectory p = true := by
  rw [get?_append] at h
  obtain ⟨t, ht, h⟩ := Option.bind_eq_some_iff.mp h
  rw [isDirectory, ht]
  cases t with
  | directory => rfl
  | file => exact nomatch h
  | link => exact nomatch h

theorem get?_eq_lookup {entries : List (String × FileTree)}
    (h : root.get? p = some (.directory entries)) :
    root.get? (p ++ [name]) = entries.lookup name := by
  rw [get?_append, h, Option.bind_some, get?]
  cases entries.lookup name with
  | none => rfl
  | some t => rw [Option.bind_eq_bind, Option.bind_some, get?]

theorem isDirectory_iff : root.isDirectory p = true ↔ ∃ entries, root.get? p = some (.directory entries) := by
  rw [isDirectory]
  split
  · next entries h => exact ⟨fun _ => ⟨entries, h⟩, fun _ => rfl⟩
  · next h =>
    refine ⟨fun hfalse => absurd hfalse Bool.false_ne_true, ?_⟩
    rintro ⟨entries, he⟩
    exact absurd he (h entries)

theorem isDirectory_nil (h : root.isDirectory p = true) : root.isDirectory [] = true := by
  obtain ⟨entries, h⟩ := isDirectory_iff.mp h
  cases root with
  | directory => rfl
  | file => cases p with
    | nil => exact nomatch h
    | cons => exact nomatch h
  | link => cases p with
    | nil => exact nomatch h
    | cons => exact nomatch h

theorem isDirectory_dropLast (h : root.isDirectory p = true) : root.isDirectory p.dropLast = true := by
  rcases List.eq_nil_or_concat p with rfl | ⟨front, name, rfl⟩
  · exact h
  · obtain ⟨entries, h⟩ := isDirectory_iff.mp h
    rw [List.concat_eq_append] at h
    rw [List.concat_eq_append, List.dropLast_concat]
    exact isDirectory_of_get?_snoc h

/-! ## Names followed one by one -/

/-- Where a link or a path starts: at the root if it is absolute. -/
def startOf (here : Place) (path : String) : Place := if isAbsolute path then [] else here

/-- Names that stand for no entry stay at a directory or leave it. -/
def move? (here : Place) (name : String) : Option Place :=
  if name = "" ∨ name = "." then some here
  else if name = ".." then some here.dropLast
  else none

/-- The name can be one of an entry. -/
def IsProper (name : String) : Prop := move? [] name = none ∧ name.utf8ByteSize ≤ maxNameBytes

/-- The entry is a link. -/
def IsLink : FileTree → Prop
  | .link _ => True
  | _ => False

/-- **Names lead from one place to another** through so many links. -/
inductive Leads (root : FileTree) : Nat → Place → List String → Place → Prop where
  | here (p : Place) : Leads root 0 p [] p
  | move {n : Nat} {p p' q : Place} {name : String} {rest : List String}
      (directory : root.isDirectory p = true) (moved : move? p name = some p')
      (h : Leads root n p' rest q) : Leads root n p (name :: rest) q
  | enter {n : Nat} {p q : Place} {name : String} {rest : List String} {e : FileTree}
      (proper : IsProper name) (entry : root.get? (p ++ [name]) = some e) (plain : ¬ e.IsLink)
      (h : Leads root n (p ++ [name]) rest q) : Leads root n p (name :: rest) q
  | follow {n : Nat} {p q : Place} {name target : String} {rest : List String}
      (proper : IsProper name) (entry : root.get? (p ++ [name]) = some (.link target))
      (h : Leads root n (startOf p target) (Text.splitAt target '/' ++ rest) q) :
      Leads root (n + 1) p (name :: rest) q

theorem move?_of_dot (h : name = "" ∨ name = ".") : move? p name = some p := if_pos h

theorem move?_of_dots (h : ¬ (name = "" ∨ name = ".")) (hdots : name = "..") :
    move? p name = some p.dropLast := by
  rw [move?, if_neg h, if_pos hdots]

theorem move?_eq_none_iff : move? p name = none ↔ ¬ (name = "" ∨ name = ".") ∧ name ≠ ".." := by
  rw [move?]
  split
  · next hdot => exact ⟨nofun, fun h => absurd hdot h.1⟩
  · next hdot =>
    split
    · next hdots => exact ⟨nofun, fun h => absurd hdots h.2⟩
    · next hdots => exact ⟨fun _ => ⟨hdot, hdots⟩, fun _ => rfl⟩

theorem isDirectory_of_move? (h : root.isDirectory p = true) (moved : move? p name = some q) :
    root.isDirectory q = true := by
  rw [move?] at moved
  split at moved
  · exact Option.some.inj moved ▸ h
  · split at moved
    · exact Option.some.inj moved ▸ isDirectory_dropLast h
    · exact nomatch moved

theorem isProper_iff :
    IsProper name ↔ ¬ (name = "" ∨ name = ".") ∧ name ≠ ".." ∧ ¬ maxNameBytes < name.utf8ByteSize := by
  rw [IsProper, move?_eq_none_iff, and_assoc, Nat.not_lt]

theorem IsProper.move?_ne (h : IsProper name) : move? p name ≠ some q := by
  rw [move?_eq_none_iff.mpr (move?_eq_none_iff.mp h.1)]
  nofun

/-- **Where resolution arrives**, the names lead. -/
theorem exists_leads_of_resolveNames (h : resolveNames root links p names = .ok q) :
    ∃ n ≤ links, Leads root n p names q := by
  fun_induction resolveNames root links p names with
  | case1 links p =>
    obtain rfl := Except.ok.inj h
    exact ⟨0, Nat.zero_le _, .here p⟩
  | case2 links p name rest entries hentries hdot ih =>
    obtain ⟨n, hn, hleads⟩ := ih h
    exact ⟨n, hn, .move (isDirectory_iff.mpr ⟨entries, hentries⟩) (move?_of_dot hdot) hleads⟩
  | case3 links p rest entries hentries hdot ih =>
    obtain ⟨n, hn, hleads⟩ := ih h
    exact ⟨n, hn, .move (isDirectory_iff.mpr ⟨entries, hentries⟩) (move?_of_dots hdot rfl) hleads⟩
  | case4 => exact nomatch h
  | case5 => exact nomatch h
  | case6 => exact nomatch h
  | case7 p name rest entries hentries hdot hdots hsize target hlookup links ih =>
    obtain ⟨n, hn, hleads⟩ := ih h
    refine ⟨n + 1, Nat.succ_le_succ hn, .follow (isProper_iff.mpr ⟨hdot, hdots, hsize⟩) ?_ hleads⟩
    rw [get?_eq_lookup hentries, hlookup]
  | case8 links p name rest entries hentries hdot hdots hsize e hplain hlookup ih =>
    obtain ⟨n, hn, hleads⟩ := ih h
    refine ⟨n, hn, .enter (e := e) (isProper_iff.mpr ⟨hdot, hdots, hsize⟩) ?_ ?_ hleads⟩
    · rw [get?_eq_lookup hentries, hlookup]
    · cases e with
      | link target => exact (hplain target rfl).elim
      | file => exact id
      | directory => exact id
  | case9 => exact nomatch h

/-- **Where the names lead, resolution arrives**, if it may follow the links. -/
theorem Leads.resolveNames_eq (h : Leads root n p names q) :
    ∀ {links : Nat}, n ≤ links → resolveNames root links p names = .ok q := by
  induction h with
  | here p =>
    intro links _
    rw [resolveNames]
  | @move n p p' q name rest directory moved _ ih =>
    intro links hn
    obtain ⟨entries, hentries⟩ := isDirectory_iff.mp directory
    rw [resolveNames, hentries]
    dsimp only
    by_cases hdot : name = "" ∨ name = "."
    · obtain rfl := Option.some.inj ((move?_of_dot hdot).symm.trans moved)
      rw [if_pos hdot]
      exact ih hn
    · by_cases hdots : name = ".."
      · obtain rfl := Option.some.inj ((move?_of_dots hdot hdots).symm.trans moved)
        rw [if_neg hdot, if_pos hdots]
        exact ih hn
      · cases (move?_eq_none_iff.mpr ⟨hdot, hdots⟩).symm.trans moved
  | @enter n p q name rest e proper entry plain _ ih =>
    intro links hn
    obtain ⟨hdot, hdots, hsize⟩ := isProper_iff.mp proper
    obtain ⟨entries, hentries⟩ := isDirectory_iff.mp (isDirectory_of_get?_snoc entry)
    rw [get?_eq_lookup hentries] at entry
    rw [resolveNames, hentries]
    dsimp only
    rw [if_neg hdot, if_neg hdots, if_neg hsize, entry]
    cases e with
    | link target => exact (plain trivial).elim
    | file => exact ih hn
    | directory => exact ih hn
  | @follow n p q name target rest proper entry _ ih =>
    intro links hn
    obtain ⟨hdot, hdots, hsize⟩ := isProper_iff.mp proper
    obtain ⟨entries, hentries⟩ := isDirectory_iff.mp (isDirectory_of_get?_snoc entry)
    rw [get?_eq_lookup hentries] at entry
    obtain ⟨links, rfl⟩ := Nat.exists_eq_succ_of_ne_zero (Nat.ne_zero_of_lt hn)
    rw [resolveNames, hentries]
    dsimp only
    rw [if_neg hdot, if_neg hdots, if_neg hsize, entry]
    exact ih (Nat.le_of_succ_le_succ hn)

/-- **Resolution succeeds** exactly if the names lead somewhere through no more links than it may
follow. -/
theorem resolveNames_eq_ok_iff :
    resolveNames root links p names = .ok q ↔ ∃ n ≤ links, Leads root n p names q :=
  ⟨exists_leads_of_resolveNames, fun ⟨_, hn, h⟩ => h.resolveNames_eq hn⟩

/-! ## Names lead to one place -/

/-- **Names lead to one place**, through one number of links. -/
theorem Leads.unique (h : Leads root n p names q) (h' : Leads root n' p names q') :
    n = n' ∧ q = q' := by
  induction h generalizing n' q' with
  | here p =>
    cases h'
    exact ⟨rfl, rfl⟩
  | move directory moved _ ih =>
    cases h' with
    | move _ moved' h' =>
      obtain rfl := Option.some.inj (moved.symm.trans moved')
      exact ih h'
    | enter proper => exact absurd moved proper.move?_ne
    | follow proper => exact absurd moved proper.move?_ne
  | enter proper entry plain _ ih =>
    cases h' with
    | move _ moved => exact absurd moved proper.move?_ne
    | enter _ _ _ h' => exact ih h'
    | follow _ entry' h' =>
      obtain rfl := Option.some.inj (entry.symm.trans entry')
      exact (plain trivial).elim
  | follow proper entry _ ih =>
    cases h' with
    | move _ moved => exact absurd moved proper.move?_ne
    | enter _ entry' plain h' =>
      obtain rfl := Option.some.inj (entry.symm.trans entry')
      exact (plain trivial).elim
    | follow _ entry' h' =>
      obtain ⟨rfl⟩ := FileTree.link.inj (Option.some.inj (entry.symm.trans entry'))
      obtain ⟨rfl, hq⟩ := ih h'
      exact ⟨rfl, hq⟩

/-- **Names followed in two stretches.** -/
theorem Leads.append (h : Leads root n p names q) (h' : Leads root n' q rest r) :
    Leads root (n + n') p (names ++ rest) r := by
  induction h with
  | here p =>
    rw [Nat.zero_add]
    exact h'
  | move directory moved _ ih => exact .move directory moved (ih h')
  | enter proper entry plain _ ih => exact .enter proper entry plain (ih h')
  | @follow n p q name target rest' proper entry _ ih =>
    rw [Nat.add_right_comm]
    exact .follow proper entry (List.append_assoc _ _ _ ▸ ih h')

theorem Leads.exists_of_append (h : Leads root n p (names ++ rest) r) :
    ∃ m k q, m + k = n ∧ Leads root m p names q ∧ Leads root k q rest r := by
  generalize hall : names ++ rest = all at h
  induction h generalizing names with
  | here p =>
    obtain ⟨rfl, rfl⟩ := List.append_eq_nil_iff.mp hall
    exact ⟨0, 0, p, rfl, .here p, .here p⟩
  | @move n p p' r name more directory moved h ih =>
    cases names with
    | nil =>
      obtain rfl := hall
      exact ⟨0, n, p, Nat.zero_add n, .here p, .move directory moved h⟩
    | cons first names =>
      obtain ⟨rfl, hmore⟩ := List.cons.inj hall
      obtain ⟨m, k, q, hn, hfront, hback⟩ := ih hmore
      exact ⟨m, k, q, hn, .move directory moved hfront, hback⟩
  | @enter n p r name more e proper entry plain h ih =>
    cases names with
    | nil =>
      obtain rfl := hall
      exact ⟨0, n, p, Nat.zero_add n, .here p, .enter proper entry plain h⟩
    | cons first names =>
      obtain ⟨rfl, hmore⟩ := List.cons.inj hall
      obtain ⟨m, k, q, hn, hfront, hback⟩ := ih hmore
      exact ⟨m, k, q, hn, .enter proper entry plain hfront, hback⟩
  | @follow n p r name target more proper entry h ih =>
    cases names with
    | nil =>
      obtain rfl := hall
      exact ⟨0, n + 1, p, Nat.zero_add _, .here p, .follow proper entry h⟩
    | cons first names =>
      obtain ⟨rfl, rfl⟩ := List.cons.inj hall
      obtain ⟨m, k, q, rfl, hfront, hback⟩ := ih (List.append_assoc _ _ _)
      exact ⟨m + 1, k, q, Nat.add_right_comm m 1 k, .follow proper entry hfront, hback⟩

/-! ## The places that names lead to -/

/-- **A name leads on from a directory only.** -/
theorem Leads.isDirectory (h : Leads root n p names q) (hnames : names ≠ []) :
    root.isDirectory p = true := by
  cases h with
  | here => exact absurd rfl hnames
  | move directory => exact directory
  | enter _ entry => exact isDirectory_of_get?_snoc entry
  | follow _ entry => exact isDirectory_of_get?_snoc entry

theorem Leads.of_not_isDirectory (h : Leads root n p names q) (hp : root.isDirectory p = false) :
    names = [] ∧ q = p := by
  cases names with
  | nil =>
    cases h
    exact ⟨rfl, rfl⟩
  | cons name rest => exact nomatch hp.symm.trans (h.isDirectory (List.cons_ne_nil _ _))

theorem isDirectory_startOf (h : root.isDirectory p = true) (path : String) :
    root.isDirectory (startOf p path) = true := by
  rw [startOf]
  split
  · exact isDirectory_nil h
  · exact h

/-- **Names never lead to a link.** -/
theorem Leads.get?_ne_link (h : Leads root n p names q) (hp : ∀ t, root.get? p ≠ some (.link t)) :
    ∀ t, root.get? q ≠ some (.link t) := by
  have of_directory {p : Place} (hdirectory : root.isDirectory p = true) (t : String) :
      root.get? p ≠ some (.link t) := by
    obtain ⟨entries, hentries⟩ := isDirectory_iff.mp hdirectory
    rw [hentries]
    nofun
  induction h with
  | here p => exact hp
  | move directory moved _ ih => exact ih (of_directory (isDirectory_of_move? directory moved))
  | enter _ entry plain _ ih =>
    refine ih fun t ht => plain ?_
    rw [Option.some.inj (entry.symm.trans ht)]
    trivial
  | follow _ entry _ ih =>
    exact ih (of_directory (isDirectory_startOf (isDirectory_of_get?_snoc entry) _))

/-! ## Paths -/

/-- A path that can lead somewhere. -/
def IsPath (path : String) : Prop := path.isEmpty = false ∧ holdsNull path = false

theorem resolve_eq_ok_iff : root.resolve p path = .ok q ↔ IsPath path ∧
    ∃ n ≤ maxLinks, Leads root n (startOf p path) (Text.splitAt path '/') q := by
  rw [resolve, IsPath, ← resolveNames_eq_ok_iff]
  cases path.isEmpty with
  | true => exact ⟨nofun, fun h => nomatch h.1.1⟩
  | false =>
    cases holdsNull path with
    | true => exact ⟨nofun, fun h => nomatch h.1.2⟩
    | false => exact ⟨fun h => ⟨⟨rfl, rfl⟩, h⟩, fun h => h.2⟩

/-- A path that is not too long to be read. -/
def IsReadable (path : String) : Prop := (!holdsNull path && maxPathBytes < path.utf8ByteSize) = false

/-- **Reading** finds the file that the path leads to. -/
theorem read_eq_ok_iff {bytes : ByteArray} : root.read p path = .ok bytes ↔ IsReadable path ∧
    ∃ q, root.resolve p path = .ok q ∧ root.get? q = some (.file bytes) := by
  rw [read, IsReadable]
  cases hlong : (!holdsNull path && decide (maxPathBytes < path.utf8ByteSize)) with
  | true =>
    constructor
    · intro h
      cases h
    · rintro ⟨h, -⟩
      cases h
  | false =>
    rw [if_neg Bool.false_ne_true]
    cases root.resolve p path with
    | error cause =>
      constructor
      · intro h
        cases h
      · rintro ⟨-, _, h, -⟩
        cases h
    | ok q =>
      dsimp only [bind, Except.bind]
      constructor
      · intro h
        split at h
        · next found hfound => exact ⟨rfl, q, rfl, Except.ok.inj h ▸ hfound⟩
        · cases h
        · cases h
      · rintro ⟨-, _, hq, hfile⟩
        obtain rfl := Except.ok.inj hq
        rw [hfile]

end ProbeWeaver.FileTree
