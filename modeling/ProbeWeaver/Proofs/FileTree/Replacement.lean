import ProbeWeaver.FileTree.Replace
import ProbeWeaver.Proofs.FileTree.Resolution
import ProbeWeaver.Proofs.Text.Parts

/-!
# Proofs/FileTree/Replacement — a replaced file, and every other

A file is replaced where its path names it: the file itself, or the link that leads to it.  A path
that leads to any other file never goes through that entry, since a file is where a path ends.  So
it leads there still, and the new file is found at the old path.

* `FileTree.exists_replaceFile` — replacing a file, with what becomes of it and of the others.
-/

namespace ProbeWeaver.FileTree

variable {root root' e : FileTree} {p q place : Place} {name : String} {names : List String}
  {bytes found : ByteArray} {n : Nat}

/-! ## One entry of a tree set -/

theorem lookup_putEntry (t : FileTree) (entries : List (String × FileTree)) :
    (putEntry name t entries).lookup name = some t := by
  induction entries with
  | nil => rw [putEntry, List.lookup_cons_self]
  | cons entry entries ih =>
    rw [putEntry]
    split
    · rw [List.lookup_cons_self]
    · next hne => rw [List.lookup_cons, ih, beq_eq_false_iff_ne.mpr (Ne.symm hne)]

theorem lookup_putEntry_of_ne {other : String} (h : other ≠ name) (t : FileTree)
    (entries : List (String × FileTree)) :
    (putEntry name t entries).lookup other = entries.lookup other := by
  induction entries with
  | nil => rw [putEntry, List.lookup_cons, beq_eq_false_iff_ne.mpr h]
  | cons entry entries ih =>
    rw [putEntry]
    split
    · next heq =>
      rw [List.lookup_cons, List.lookup_cons, heq, beq_eq_false_iff_ne.mpr h]
    · rw [List.lookup_cons, List.lookup_cons, ih]

theorem get?_set : ∀ (t : FileTree) (p : Place) (e : FileTree), (t.set p e).get? p = some e
  | t, [], e => by rw [set, get?]
  | .directory entries, name :: p, e => by
      rw [set, get?, lookup_putEntry]
      exact get?_set _ p e
  | .file _, name :: p, e => by
      rw [set, get?, List.lookup_cons_self]
      · exact get?_set _ p e
      · intro entries h
        cases h
  | .link _, name :: p, e => by
      rw [set, get?, List.lookup_cons_self]
      · exact get?_set _ p e
      · intro entries h
        cases h

/-- An entry without what stands in it. -/
def top : FileTree → FileTree
  | .directory _ => .directory []
  | t => t

/-- **All else stays**, when an entry in which nothing stands becomes a file. -/
theorem top_get?_set : ∀ {t : FileTree} {p q : Place}, (t.get? p).isSome = true →
    t.isDirectory p = false → q ≠ p →
      ((t.set p (.file bytes)).get? q).map top = (t.get? q).map top
  | t, [], [], _, _, hne => absurd rfl hne
  | .file _, [], _ :: _, _, _, _ => rfl
  | .link _, [], _ :: _, _, _, _ => rfl
  | .directory _, [], _ :: _, _, hplain, _ => nomatch hplain
  | .file _, _ :: _, _, hsome, _, _ => nomatch hsome
  | .link _, _ :: _, _, hsome, _, _ => nomatch hsome
  | .directory _, _ :: _, [], _, _, _ => rfl
  | .directory entries, name :: p, other :: q, hsome, hplain, hne => by
      rw [set, get?, get?]
      by_cases hother : other = name
      · subst hother
        rw [isDirectory, get?] at hplain
        rw [get?] at hsome
        rw [lookup_putEntry]
        cases hbelow : entries.lookup other with
        | none => rw [hbelow] at hsome; exact absurd hsome Bool.false_ne_true
        | some below =>
          rw [hbelow] at hsome hplain
          exact top_get?_set hsome hplain fun h => hne (congrArg _ h)
      · rw [lookup_putEntry_of_ne hother]

/-! ## Where names lead in the new tree -/

/-- **An entry replaced by a file**: a file itself, or a link that leads to one.  All else is as it
was. -/
structure Replaced (root root' : FileTree) (place file : Place) : Prop where
  apart : ∀ q ≠ place, (root'.get? q).map top = (root.get? q).map top
  plain : root.isDirectory place = false
  regular : ∃ bytes, root.get? file = some (.file bytes)
  itself : ∀ bytes, root.get? place = some (.file bytes) → place = file
  through : ∀ target, root.get? place = some (.link target) →
    ∃ n, Leads root n (startOf place.dropLast target) (Text.splitAt target '/') file

namespace Replaced

variable {file : Place}

theorem get?_link (h : Replaced root root' place file) (hq : q ≠ place) {target : String}
    (hlink : root.get? q = some (.link target)) : root'.get? q = some (.link target) := by
  have happart := h.apart q hq
  rw [hlink] at happart
  obtain ⟨e, he, htop⟩ := Option.map_eq_some_iff.mp happart
  rw [he]
  cases e with
  | link => exact congrArg some htop
  | file => exact nomatch htop
  | directory => exact nomatch htop

theorem get?_file (h : Replaced root root' place file) (hq : q ≠ place)
    (hfile : root.get? q = some (.file bytes)) : root'.get? q = some (.file bytes) := by
  have happart := h.apart q hq
  rw [hfile] at happart
  obtain ⟨e, he, htop⟩ := Option.map_eq_some_iff.mp happart
  rw [he]
  cases e with
  | link => exact nomatch htop
  | file => exact congrArg some htop
  | directory => exact nomatch htop

theorem isDirectory (h : Replaced root root' place file) (hdir : root.isDirectory q = true) :
    root'.isDirectory q = true := by
  have hq : q ≠ place := by
    rintro rfl
    exact nomatch h.plain.symm.trans hdir
  obtain ⟨entries, hentries⟩ := isDirectory_iff.mp hdir
  have happart := h.apart q hq
  rw [hentries] at happart
  obtain ⟨e, he, htop⟩ := Option.map_eq_some_iff.mp happart
  cases e with
  | link => exact nomatch htop
  | file => exact nomatch htop
  | directory entries' => exact isDirectory_iff.mpr ⟨entries', he⟩

theorem isDirectory_file (h : Replaced root root' place file) : root.isDirectory file = false := by
  obtain ⟨bytes, hfile⟩ := h.regular
  rw [FileTree.isDirectory, hfile]

/-- **Names that lead elsewhere lead there still.** -/
theorem leads (h : Replaced root root' place file) (hleads : Leads root n p names q)
    (hq : q ≠ file) : Leads root' n p names q := by
  induction hleads with
  | here p => exact .here p
  | move directory moved _ ih => exact .move (h.isDirectory directory) moved (ih hq)
  | @enter n p q name rest e proper entry plain hrest ih =>
    by_cases hplace : p ++ [name] = place
    · -- an entry that is entered at the place is the file, where names end
      have hend := hrest.of_not_isDirectory (hplace ▸ h.plain)
      cases e with
      | link => exact (plain trivial).elim
      | directory entries =>
        exact nomatch (hplace ▸ h.plain).symm.trans (isDirectory_iff.mpr ⟨entries, entry⟩)
      | file => exact absurd (hend.2.trans (hplace.trans (h.itself _ (hplace ▸ entry)))) hq
    · have happart := h.apart _ hplace
      rw [entry] at happart
      obtain ⟨e', he', htop⟩ := Option.map_eq_some_iff.mp happart
      refine .enter proper he' (fun hlink => ?_) (ih hq)
      cases e' with
      | file => exact hlink
      | directory => exact hlink
      | link =>
        cases e with
        | file => exact nomatch htop
        | directory => exact nomatch htop
        | link => exact plain trivial
  | @follow n p q name target rest proper entry hrest ih =>
    by_cases hplace : p ++ [name] = place
    · -- the link at the place leads to the file, and no name leads on from there
      obtain ⟨m, hthrough⟩ := h.through target (hplace ▸ entry)
      rw [← hplace, List.dropLast_concat] at hthrough
      obtain ⟨_, _, r, -, hfront, hback⟩ := hrest.exists_of_append
      obtain rfl := (hthrough.unique hfront).2
      exact absurd (hback.of_not_isDirectory h.isDirectory_file).2 hq
    · exact .follow proper (h.get?_link hplace entry) (ih hq)

end Replaced

/-! ## Replacing the file at a path -/

/-- **A path has a last name.** -/
theorem exists_splitAt_eq (path : String) : ∃ names name, Text.splitAt path '/' = names ++ [name] := by
  rcases List.eq_nil_or_concat (Text.splitAt path '/') with hnil | ⟨names, name, h⟩
  · exact absurd (List.map_eq_nil_iff.mp hnil) (Text.splitChars_ne_nil '/' _)
  · exact ⟨names, name, h.trans (List.concat_eq_append)⟩

/-- **A last name that leads to a file** is the name of an entry, which the file can replace. -/
theorem Leads.replaced (h : Leads root n p [name] q) (hq : root.get? q = some (.file bytes))
    (content : ByteArray) : IsProper name ∧
      Replaced root (root.set (p ++ [name]) (.file content)) (p ++ [name]) q := by
  have hfile : root.isDirectory q = false := by rw [FileTree.isDirectory, hq]
  have happart (hsome : (root.get? (p ++ [name])).isSome = true)
      (hplain : root.isDirectory (p ++ [name]) = false) (r : Place) (hr : r ≠ p ++ [name]) :
      ((root.set (p ++ [name]) (.file content)).get? r).map top = (root.get? r).map top :=
    top_get?_set hsome hplain hr
  cases h with
  | move directory moved hrest =>
    cases hrest
    exact absurd (hfile.symm.trans (isDirectory_of_move? directory moved)) Bool.false_ne_true
  | enter proper entry plain hrest =>
    cases hrest
    exact ⟨proper, happart (by rw [hq]; rfl) hfile, hfile, ⟨bytes, hq⟩, fun _ _ => rfl,
      fun target htarget => by cases htarget.symm.trans hq⟩
  | follow proper entry hrest =>
    have hplain : root.isDirectory (p ++ [name]) = false := by rw [FileTree.isDirectory, entry]
    refine ⟨proper, happart (by rw [entry]; rfl) hplain, hplain, ⟨bytes, hq⟩,
      fun _ hbytes => (by cases entry.symm.trans hbytes), fun target htarget => ?_⟩
    obtain rfl := FileTree.link.inj (Option.some.inj (entry.symm.trans htarget))
    rw [List.append_nil] at hrest
    rw [List.dropLast_concat]
    exact ⟨_, hrest⟩

/-- **What replacing the file at a path does**: the path leads to the new text, and a path that
leads to another file leads there still, and not to the new one. -/
structure Rewrites (root root' : FileTree) (here : Place) (path content : String) : Prop where
  text : root'.readText here path = .ok content
  keeps : ∀ other found, root.read here other = .ok found →
    root.resolve here other ≠ root.resolve here path →
      root'.read here other = .ok found ∧ root'.resolve here other = root.resolve here other ∧
        root'.resolve here other ≠ root'.resolve here path

theorem readText_eq_ok_iff {here : Place} {path source : String} :
    root.readText here path = .ok source ↔
      ∃ bytes, root.read here path = .ok bytes ∧ Text.Utf8.decode bytes = .ok source := by
  rw [readText]
  cases root.read here path with
  | error cause => exact ⟨nofun, fun ⟨_, h, _⟩ => nomatch h⟩
  | ok bytes =>
    dsimp only
    cases hdecode : Text.Utf8.decode bytes with
    | error fault =>
      refine ⟨nofun, fun ⟨_, h, hsource⟩ => ?_⟩
      obtain rfl := Except.ok.inj h
      exact nomatch hdecode.symm.trans hsource
    | ok text =>
      constructor
      · intro h
        exact ⟨bytes, rfl, Except.ok.inj h ▸ hdecode⟩
      · rintro ⟨_, h, hsource⟩
        obtain rfl := Except.ok.inj h
        rw [Except.ok.inj (hdecode.symm.trans hsource)]

/-- The text that is read is the current one. -/
theorem currentText_of_readText {here : Place} {path source : String}
    (h : root.readText here path = .ok source) : root.currentText here path = .ok source := by
  obtain ⟨bytes, hbytes, hdecode⟩ := readText_eq_ok_iff.mp h
  rw [currentText, hbytes]
  dsimp only
  rw [hdecode]

/-- A file that already holds the text is left alone. -/
theorem replaceFile_of_eq {here : Place} {path content : String} (expected : Fingerprint)
    (hread : root.readText here path = .ok content) :
    root.replaceFile here path expected content = .ok (.unchanged, root) := by
  rw [replaceFile, currentText_of_readText hread]
  show (if content = content then _ else _) = _
  rw [if_pos rfl]
  rfl

/-- A file with the expected text is replaced where its path names it. -/
theorem replaceFile_of_ne {here place : Place} {path source content : String}
    (hread : root.readText here path = .ok source) (hne : source ≠ content)
    (hplace : root.resolveParent here path = .ok place) :
    root.replaceFile here path (.of source) content =
      .ok (.written content.utf8ByteSize, root.set place (.file content.toUTF8)) := by
  have haccepts : (Fingerprint.of source).accepts source = true := beq_self_eq_true _
  rw [replaceFile, currentText_of_readText hread]
  show (if source = content then _ else _) = _
  rw [if_neg hne, if_pos haccepts, hplace]
  rfl

/-- **A file whose text is still the expected one is replaced.** -/
theorem exists_replaceFile {here : Place} {path source content : String}
    (hread : root.readText here path = .ok source) (hne : source ≠ content) :
    ∃ root', root.replaceFile here path (.of source) content =
        .ok (.written content.utf8ByteSize, root') ∧ Rewrites root root' here path content := by
  obtain ⟨bytes, hbytes, hdecode⟩ := readText_eq_ok_iff.mp hread
  obtain ⟨hreadable, file, hresolve, hfile⟩ := read_eq_ok_iff.mp hbytes
  obtain ⟨hpath, n, hn, hleads⟩ := resolve_eq_ok_iff.mp hresolve
  obtain ⟨names, name, hnames⟩ := exists_splitAt_eq path
  rw [hnames] at hleads
  obtain ⟨m, k, parent, rfl, hfront, hlast⟩ := hleads.exists_of_append
  obtain ⟨hproper, hreplaced⟩ := hlast.replaced hfile content.toUTF8
  have hm : m ≤ maxLinks := Nat.le_of_add_right_le hn
  have hparent : root.resolveParent here path = .ok (parent ++ [name]) := by
    rw [resolveParent, hnames, List.dropLast_concat, List.getLast?_concat]
    exact congrArg (· >>= _) (hfront.resolveNames_eq hm)
  have hset := get?_set root (parent ++ [name]) (.file content.toUTF8)
  refine ⟨_, replaceFile_of_ne hread hne hparent, ?_⟩
  have hnew : (root.set (parent ++ [name]) (.file content.toUTF8)).resolve here path =
      .ok (parent ++ [name]) := by
    refine resolve_eq_ok_iff.mpr ⟨hpath, m, hm, ?_⟩
    have hparent : parent ≠ file := by
      rintro rfl
      exact nomatch hreplaced.isDirectory_file.symm.trans (hlast.isDirectory (List.cons_ne_nil _ _))
    rw [hnames]
    exact (hreplaced.leads hfront hparent).append (.enter hproper hset id (.here _))
  constructor
  · refine readText_eq_ok_iff.mpr ⟨content.toUTF8, ?_, Text.Utf8.decode_toUTF8 content⟩
    exact read_eq_ok_iff.mpr ⟨hreadable, _, hnew, hset⟩
  · intro other found hfound hother
    obtain ⟨hreadable', place, hplace, hbytes'⟩ := read_eq_ok_iff.mp hfound
    obtain ⟨hpath', k', hk', hleads'⟩ := resolve_eq_ok_iff.mp hplace
    have hapart : place ≠ file := by
      rintro rfl
      exact hother (hplace.trans hresolve.symm)
    have hplace' : place ≠ parent ++ [name] := by
      rintro rfl
      exact hapart (hreplaced.itself found hbytes')
    have hresolve' := resolve_eq_ok_iff.mpr ⟨hpath', k', hk', hreplaced.leads hleads' hapart⟩
    refine ⟨read_eq_ok_iff.mpr ⟨hreadable', place, hresolve', hreplaced.get?_file hplace' hbytes'⟩,
      hresolve'.trans hplace.symm, ?_⟩
    rw [hresolve', hnew]
    exact fun h => hplace' (Except.ok.inj h)

end ProbeWeaver.FileTree
