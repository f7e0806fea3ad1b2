import Mathlib.Data.List.Nodup
import ProbeWeaver.Proofs.FileTree.Resolution
import ProbeWeaver.Proofs.Text.Parts

/-!
# Proofs/FileTree/Paths — paths in a tree without links

In a plain tree no link stands and the names of a directory are different ones that a path can
spell.  There a path leads from a directory to at most one place, name by name, and a path that is
put after the path of a place leads where it leads from that place (`IsPlain.resolve_joinPath`).
-/

namespace ProbeWeaver

variable {sep : Char} {cs : List Char}

/-! ## Names joined by separators -/

/-- Parts without a separator that are joined by separators are cut apart again. -/
theorem Text.splitChars_intercalate : ∀ {ns : List (List Char)}, ns ≠ [] →
    (∀ n ∈ ns, sep ∉ n) → splitChars sep ([sep].intercalate ns ++ sep :: cs) =
      ns ++ splitChars sep cs
  | [n], _, h => by
      rw [List.intercalate_singleton]
      exact splitChars_append (h n List.mem_cons_self)
  | n :: m :: ns, _, h => by
      obtain ⟨hn, hrest⟩ := List.forall_mem_cons.mp h
      rw [List.intercalate_cons_cons, List.append_assoc, List.append_assoc, List.singleton_append,
        splitChars_append hn, splitChars_intercalate (List.cons_ne_nil m ns) hrest]
      rfl

/-- Joined parts end as the last one does, if that is not empty. -/
theorem Text.getLast?_intercalate (sep : List Char) : ∀ {ns : List (List Char)} {n : List Char},
    ns.getLast? = some n → n ≠ [] → (sep.intercalate ns).getLast? = n.getLast?
  | [m], n, h, _ => by
      rw [List.intercalate_singleton, Option.some.inj (List.getLast?_singleton.symm.trans h)]
  | m :: m' :: ns, n, h, hne => by
      have hlast := getLast?_intercalate sep (List.getLast?_cons_cons.symm.trans h) hne
      rw [List.intercalate_cons_cons, List.getLast?_append, hlast]
      cases hn : n.getLast? with
      | none => exact absurd (List.getLast?_eq_none_iff.mp hn) hne
      | some c => rfl

/-- A character of joined parts is one of the separator or of a part. -/
theorem Text.mem_intercalate {sep : List Char} {c : Char} : ∀ {ns : List (List Char)},
    c ∈ sep.intercalate ns → c ∈ sep ∨ ∃ n ∈ ns, c ∈ n
  | [], h => absurd h List.not_mem_nil
  | [n], h => by
      rw [List.intercalate_singleton] at h
      exact .inr ⟨n, List.mem_cons_self, h⟩
  | n :: m :: ns, h => by
      rw [List.intercalate_cons_cons, List.mem_append, List.mem_append] at h
      rcases h with (h | h) | h
      · exact .inr ⟨n, List.mem_cons_self, h⟩
      · exact .inl h
      · exact (mem_intercalate h).imp_right fun ⟨part, hpart, hc⟩ =>
          ⟨part, List.mem_cons_of_mem n hpart, hc⟩

namespace FileTree

variable {root e : FileTree} {p q here : Place} {name path : String} {names : List String}
  {n : Nat} {entries : List (String × FileTree)}

/-! ## Plain trees -/

/-- **A name that a path can spell**: no directory goes by a dot, and none of its characters ends a
name or a path. -/
structure IsEntryName (name : String) : Prop where
  proper : IsProper name
  slash : '/' ∉ name.toList
  null : '\x00' ∉ name.toList

/-- **A tree without links**: the names in a directory are different, and paths can spell them. -/
structure IsPlain (root : FileTree) : Prop where
  linkFree : ∀ p target, root.get? p ≠ some (.link target)
  nodup : ∀ p entries, root.get? p = some (.directory entries) → (entries.map Prod.fst).Nodup
  names : ∀ p entries, root.get? p = some (.directory entries) →
    ∀ entry ∈ entries, IsEntryName entry.1

/-- Under different names, an entry is found by its name. -/
theorem lookup_eq_some_iff_mem : ∀ {entries : List (String × FileTree)},
    (entries.map Prod.fst).Nodup → (entries.lookup name = some e ↔ (name, e) ∈ entries)
  | [], _ => iff_of_false nofun List.not_mem_nil
  | (other, t) :: entries, h => by
      obtain ⟨hother, hnodup⟩ := List.nodup_cons.mp h
      rw [List.lookup_cons, List.mem_cons, Prod.mk.injEq]
      by_cases hname : name = other
      · subst hname
        rw [beq_self_eq_true]
        have hnot : (name, e) ∉ entries := fun hmem => hother (List.mem_map.mpr ⟨_, hmem, rfl⟩)
        rw [or_iff_left hnot, and_iff_right rfl, eq_comm]
        exact Option.some_inj
      · rw [beq_eq_false_iff_ne.mpr hname, or_iff_right fun heq => hname heq.1]
        exact lookup_eq_some_iff_mem hnodup

/-- What stands below an entry. -/
theorem IsPlain.get?_cons (h : (FileTree.directory entries).IsPlain) (hmem : (name, e) ∈ entries) :
    (FileTree.directory entries).get? (name :: p) = e.get? p := by
  rw [get?, (lookup_eq_some_iff_mem (h.nodup [] entries rfl)).mpr hmem]
  rfl

/-- **What stands in a plain tree** is plain. -/
theorem IsPlain.of_get? (h : root.IsPlain) (he : root.get? p = some e) : e.IsPlain := by
  have hbelow (q : Place) : root.get? (p ++ q) = e.get? q := by
    rw [get?_append, he, Option.bind_some]
  refine ⟨fun q target hq => ?_, fun q entries hq => ?_, fun q entries hq => ?_⟩
  · exact h.linkFree (p ++ q) target ((hbelow q).trans hq)
  · exact h.nodup (p ++ q) entries ((hbelow q).trans hq)
  · exact h.names (p ++ q) entries ((hbelow q).trans hq)

theorem IsPlain.of_mem (h : (FileTree.directory entries).IsPlain) (hmem : (name, e) ∈ entries) :
    e.IsPlain := by
  refine h.of_get? (p := [name]) ?_
  rw [h.get?_cons hmem, get?]

theorem isPlain_file (bytes : ByteArray) : (FileTree.file bytes).IsPlain := by
  refine ⟨fun p target h => ?_, fun p entries h => ?_, fun p entries h => ?_⟩ <;>
    cases p <;> exact nomatch h

/-- **A directory of plain entries** is plain. -/
theorem isPlain_directory (hnodup : (entries.map Prod.fst).Nodup)
    (hnames : ∀ entry ∈ entries, IsEntryName entry.1) (h : ∀ entry ∈ entries, entry.2.IsPlain) :
    (FileTree.directory entries).IsPlain := by
  have hbelow {name : String} {p : Place} {e : FileTree}
      (he : (FileTree.directory entries).get? (name :: p) = some e) :
      ∃ t : FileTree, t.IsPlain ∧ t.get? p = some e := by
    rw [get?] at he
    obtain ⟨t, hlookup, he⟩ := Option.bind_eq_some_iff.mp he
    exact ⟨t, h _ ((lookup_eq_some_iff_mem hnodup).mp hlookup), he⟩
  refine ⟨fun p target hp => ?_, fun p entries' hp => ?_, fun p entries' hp => ?_⟩
  · cases p with
    | nil => exact FileTree.noConfusion (Option.some.inj hp)
    | cons name p =>
      obtain ⟨t, ht, hp⟩ := hbelow hp
      exact ht.linkFree p target hp
  · cases p with
    | nil =>
      obtain ⟨rfl⟩ := FileTree.directory.inj (Option.some.inj hp)
      exact hnodup
    | cons name p =>
      obtain ⟨t, ht, hp⟩ := hbelow hp
      exact ht.nodup p entries' hp
  · cases p with
    | nil =>
      obtain ⟨rfl⟩ := FileTree.directory.inj (Option.some.inj hp)
      exact hnames
    | cons name p =>
      obtain ⟨t, ht, hp⟩ := hbelow hp
      exact ht.names p entries' hp

/-! ## Where paths lead -/

/-- **The path leads from a directory to a place.** -/
def Reaches (root : FileTree) (here : Place) (path : String) (q : Place) : Prop :=
  holdsNull path = false ∧ Leads root 0 (startOf here path) (Text.splitAt path '/') q

theorem Reaches.unique {q' : Place} (h : root.Reaches here path q) (h' : root.Reaches here path q') :
    q = q' := (h.2.unique h'.2).2

theorem splitAt_ne_nil (path : String) : Text.splitAt path '/' ≠ [] := fun h =>
  Text.splitChars_ne_nil '/' path.toList (List.map_eq_nil_iff.mp h)

/-- Names that lead somewhere lead to an entry. -/
theorem Leads.exists_get? (h : Leads root n p names q) (hp : root.isDirectory p = true) :
    ∃ e, root.get? q = some e := by
  have of_directory {p : Place} (hdirectory : root.isDirectory p = true) :
      ∃ e, root.get? p = some e := by
    obtain ⟨entries, hentries⟩ := isDirectory_iff.mp hdirectory
    exact ⟨_, hentries⟩
  cases hq : root.isDirectory q with
  | true => exact of_directory hq
  | false =>
    induction h with
    | here p => exact of_directory hp
    | move directory moved _ ih => exact ih (isDirectory_of_move? directory moved) hq
    | @enter n p q name rest e proper entry plain h ih =>
      cases hnext : root.isDirectory (p ++ [name]) with
      | true => exact ih hnext hq
      | false =>
        obtain ⟨-, rfl⟩ := h.of_not_isDirectory hnext
        exact ⟨e, entry⟩
    | follow _ entry _ ih =>
      exact ih (isDirectory_startOf (isDirectory_of_get?_snoc entry) _) hq

theorem Reaches.exists_get? (h : root.Reaches here path q) : ∃ e, root.get? q = some e :=
  h.2.exists_get? (h.2.isDirectory (splitAt_ne_nil path))

namespace IsPlain

variable (hroot : root.IsPlain)

include hroot

/-- No links are followed. -/
theorem eq_zero_of_leads (h : Leads root n p names q) : n = 0 := by
  induction h with
  | here => rfl
  | move _ _ _ ih => exact ih
  | enter _ _ _ _ ih => exact ih
  | follow _ entry => exact absurd entry (hroot.linkFree _ _)

/-- **Resolution** finds where a path leads. -/
theorem resolve_eq_ok_iff :
    root.resolve here path = .ok q ↔ path ≠ "" ∧ root.Reaches here path q := by
  rw [FileTree.resolve_eq_ok_iff, IsPath, Reaches, ← and_assoc, String.isEmpty_eq_false_iff]
  refine and_congr_right fun _ => ⟨?_, fun h => ⟨0, Nat.zero_le _, h⟩⟩
  rintro ⟨n, -, h⟩
  exact hroot.eq_zero_of_leads h ▸ h

/-- The names on the way to an entry. -/
theorem names_of_get? : ∀ {p : Place} {e : FileTree}, root.get? p = some e →
    ∀ name ∈ p, IsEntryName name := by
  intro p
  induction p using List.reverseRecOn with
  | nil => exact fun _ name h => absurd h List.not_mem_nil
  | append_singleton p last ih =>
    intro e he name hname
    obtain ⟨entries, hentries⟩ := isDirectory_iff.mp (isDirectory_of_get?_snoc he)
    rcases List.mem_append.mp hname with hname | hname
    · exact ih hentries name hname
    · rw [List.mem_singleton.mp hname]
      rw [get?_eq_lookup hentries, lookup_eq_some_iff_mem (hroot.nodup p entries hentries)] at he
      exact hroot.names p entries hentries _ he

/-- **The names of a place** lead to it. -/
theorem leads_of_get? : ∀ {p : Place} {e : FileTree}, root.get? p = some e →
    Leads root 0 [] p p := by
  intro p
  induction p using List.reverseRecOn with
  | nil => exact fun _ => .here []
  | append_singleton p last ih =>
    intro e he
    obtain ⟨entries, hentries⟩ := isDirectory_iff.mp (isDirectory_of_get?_snoc he)
    have hlast := hroot.names_of_get? he last (List.mem_append_right p List.mem_cons_self)
    have hplain : ¬ e.IsLink := by
      cases e with
      | link target => exact absurd he (hroot.linkFree _ _)
      | file => exact id
      | directory => exact id
    exact (ih hentries).append (.enter hlast.proper he hplain (.here _))

/-- Names go on from a place as they do behind its own names. -/
theorem leads_append_iff (he : root.get? p = some e) :
    Leads root 0 [] (p ++ names) q ↔ Leads root 0 p names q := by
  constructor
  · intro h
    obtain ⟨m, k, r, hzero, hfront, hback⟩ := h.exists_of_append
    obtain ⟨-, rfl⟩ := hfront.unique (hroot.leads_of_get? he)
    exact hroot.eq_zero_of_leads hback ▸ hback
  · exact (hroot.leads_of_get? he).append

end IsPlain

/-! ## A path after the path of a place -/

/-- The path of a place ends a name, unless it is the root's. -/
theorem getLast?_path (hp : p ≠ []) (hnames : ∀ name ∈ p, IsEntryName name) :
    (p.path.toList.getLast? == some '/') = false := by
  obtain ⟨front, last, rfl⟩ := (List.eq_nil_or_concat p).resolve_left hp
  rw [List.concat_eq_append] at hnames ⊢
  have hlast := hnames last (List.mem_append_right front List.mem_cons_self)
  have hne : last.toList ≠ [] := by
    rw [ne_eq, String.toList_eq_nil_iff]
    exact fun h => (isProper_iff.mp hlast.proper).1 (.inl h)
  have hparts : ((front ++ [last]).map String.toList).getLast? = some last.toList := by
    rw [List.map_append]
    exact List.getLast?_concat
  have hend := Text.getLast?_intercalate "/".toList hparts hne
  rw [Place.path, String.toList_append, List.getLast?_append, String.toList_intercalate, hend]
  cases hchar : last.toList.getLast? with
  | none => exact absurd (List.getLast?_eq_none_iff.mp hchar) hne
  | some c =>
    refine beq_eq_false_iff_ne.mpr fun h => hlast.slash ?_
    obtain rfl := Option.some.inj h
    exact List.mem_of_getLast? hchar

/-- A path that does not start at the root is put behind a slash. -/
theorem joinPath_eq (hnames : ∀ name ∈ p, IsEntryName name) (hpath : isAbsolute path = false) :
    joinPath p.path path = if p = [] then "/" ++ path else p.path ++ "/" ++ path := by
  rw [joinPath, hpath, if_neg Bool.false_ne_true]
  by_cases hp : p = []
  · subst hp
    rfl
  · have hempty : p.path.isEmpty = false := by
      rw [String.isEmpty_eq_false_iff, Place.path]
      exact fun h => absurd (congrArg String.toList h) (by rw [String.toList_append]; exact nofun)
    rw [hempty, getLast?_path hp hnames, Bool.false_or, if_neg Bool.false_ne_true, if_neg hp]

/-- **The names of a joined path** are those of the place and those of the path. -/
theorem splitAt_joinPath (hnames : ∀ name ∈ p, IsEntryName name)
    (hpath : isAbsolute path = false) :
    Text.splitAt (joinPath p.path path) '/' = "" :: (p ++ Text.splitAt path '/') := by
  have hfirst (cs : List Char) : Text.splitChars '/' ('/' :: cs) = [] :: Text.splitChars '/' cs :=
    Text.splitChars_append (p := []) List.not_mem_nil
  have hslash : "/".toList = ['/'] := rfl
  rw [joinPath_eq hnames hpath]
  split
  · next hp =>
    subst hp
    rw [Text.splitAt, String.toList_append, hslash, List.singleton_append, hfirst]
    rfl
  · next hp =>
    have hall : ∀ cs ∈ p.map String.toList, '/' ∉ cs := fun cs hcs => by
      obtain ⟨name, hname, rfl⟩ := List.mem_map.mp hcs
      exact (hnames name hname).slash
    rw [Text.splitAt, Place.path, String.toList_append, String.toList_append, String.toList_append,
      String.toList_intercalate, hslash, List.singleton_append, List.append_assoc, List.cons_append,
      hfirst, List.singleton_append,
      Text.splitChars_intercalate (fun h => hp (List.map_eq_nil_iff.mp h)) hall, List.map_cons,
      List.map_append, List.map_map]
    refine congrArg₂ _ rfl (congrArg₂ _ ?_ rfl)
    exact (List.map_congr_left fun name _ => String.ofList_toList).trans (List.map_id p)

/-- No null character comes in by the names of a place. -/
theorem holdsNull_joinPath (hnames : ∀ name ∈ p, IsEntryName name) :
    holdsNull (joinPath p.path path) = holdsNull path := by
  cases hpath : isAbsolute path with
  | true => rw [joinPath, hpath, if_pos rfl]
  | false =>
    have hplace : '\x00' ∉ p.path.toList := by
      rw [Place.path, String.toList_append, String.toList_intercalate, List.mem_append]
      rintro (h | h)
      · exact absurd h (by decide)
      · rcases Text.mem_intercalate h with h | ⟨cs, hcs, h⟩
        · exact absurd h (by decide)
        · obtain ⟨name, hname, rfl⟩ := List.mem_map.mp hcs
          exact (hnames name hname).null h
    rw [joinPath_eq hnames hpath, holdsNull, holdsNull, List.contains_eq_mem, List.contains_eq_mem]
    split
    · rw [String.toList_append, decide_eq_decide, List.mem_append]
      exact or_iff_right (by decide)
    · rw [String.toList_append, String.toList_append, decide_eq_decide, List.mem_append,
        List.mem_append, or_iff_right hplace]
      exact or_iff_right (by decide)

/-- **A path put after the path of a place** leads where it leads from that place. -/
theorem IsPlain.resolve_joinPath (hroot : root.IsPlain) (he : root.get? p = some e) :
    root.resolve [] (joinPath p.path path) = .ok q ↔ root.Reaches p path q := by
  have hnames := hroot.names_of_get? he
  rw [hroot.resolve_eq_ok_iff]
  cases hpath : isAbsolute path with
  | true =>
    rw [joinPath, hpath, if_pos rfl, Reaches, Reaches, startOf, startOf, hpath, if_pos rfl,
      if_pos rfl]
    refine and_iff_right_of_imp fun _ h => ?_
    subst h
    exact absurd hpath (by decide)
  | false =>
    have hjoined : joinPath p.path path ≠ "" := by
      rw [joinPath_eq hnames hpath]
      split
      all_goals
        exact fun h => absurd (congrArg String.toList h) (by simp [Place.path])
    rw [and_iff_right hjoined, Reaches, Reaches, holdsNull_joinPath hnames,
      splitAt_joinPath hnames hpath, startOf, startOf, hpath, ite_self, if_neg Bool.false_ne_true,
      ← hroot.leads_append_iff he]
    refine and_congr_right fun _ => ⟨fun h => ?_, fun h => ?_⟩
    · -- the empty name stays at the root
      cases h with
      | move _ moved h => exact Option.some.inj ((move?_of_dot (.inl rfl)).symm.trans moved) ▸ h
      | enter proper => exact absurd (move?_of_dot (p := []) (.inl rfl)) proper.move?_ne
    · have hne : p ++ Text.splitAt path '/' ≠ [] := fun h =>
        splitAt_ne_nil path (List.append_eq_nil_iff.mp h).2
      exact .move (h.isDirectory hne) (move?_of_dot (.inl rfl)) h

end FileTree

end ProbeWeaver
