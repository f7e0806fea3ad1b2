import ProbeWeaver.Proofs.Typing.Resolution

/-!
# Proofs/Typing/Links — how far chains of type names go

`NameTable.Leads` counts the links from one type to another along a chain of type names; a name of a
fixed width is a link like any other, and a chain may come back to where it started.  Resolution
follows sixteen links, so it settles exactly where no longer chain starts.

* `resolveUpTo_qualified` — qualifiers are carried along every chain, whether or not it ends.
* `isSettled_resolveUpTo_iff` — so many links are enough exactly if no chain from there is longer.
* `chainsBelow_iff` — whether all chains of a file are short can be seen from the names it defines.
-/

namespace ProbeWeaver

variable {names : NameTable} {s t x target : CType} {name : String} {q r : Qualifiers}
  {links limit n : Nat}

/-! ## Qualifiers upon qualifiers -/

theorem Qualifiers.merge_assoc (p q r : Qualifiers) :
    (p.merge q).merge r = p.merge (q.merge r) := by
  simp only [merge, Bool.or_assoc]

namespace CType

/-- Qualifiers that are added in turn are added together. -/
theorem qualified_qualified : ∀ (t : CType) (q r : Qualifiers),
    (t.qualified q).qualified r = t.qualified (q.merge r)
  | .named name p, q, r => congrArg (named name) (p.merge_assoc q r)
  | .pointer pointee p, q, r => congrArg (pointer pointee) (p.merge_assoc q r)
  | .array element size, q, r => congrArg (array · size) (qualified_qualified element q r)
  | .function _ _, _, _ => rfl

/-- A named type is its name with the qualifiers added. -/
theorem qualified_plain (name : String) (q : Qualifiers) : (plain name).qualified q = named name q :=
  rfl

theorem name?_qualified (t : CType) (q : Qualifiers) : (t.qualified q).name? = t.name? := by
  cases t <;> rfl

end CType

namespace NameTable

theorem target?_eq_none_iff : names.target? name = none ↔
    names.typedefs.lookup name = none ∧ fixedWidthBuiltin? name = none := by
  rw [target?]
  cases names.typedefs.lookup name <;> simp

theorem isSettled_qualified_iff : names.IsSettled (t.qualified q) ↔ names.IsSettled t := by
  rw [IsSettled, CType.name?_qualified, IsSettled]

/-- **Qualifiers are carried along**, however far the chain is followed. -/
theorem resolveUpTo_qualified : ∀ (links : Nat) (t : CType) (q : Qualifiers),
    names.resolveUpTo links (t.qualified q) = (names.resolveUpTo links t).qualified q
  | 0, _, _ | _ + 1, .pointer _ _, _ | _ + 1, .array _ _, _ | _ + 1, .function _ _, _ => rfl
  | links + 1, .named name p, q => by
      rw [CType.qualified, resolveUpTo, resolveUpTo]
      cases names.target? name with
      | none => rfl
      | some target =>
        dsimp only
        rw [← CType.qualified_qualified, resolveUpTo_qualified links]

/-- Where a chain has ended there is nothing to follow. -/
theorem IsSettled.resolveUpTo_eq (h : names.IsSettled t) : ∀ links, names.resolveUpTo links t = t
  | 0 => rfl
  | links + 1 => by
      cases t with
      | named name q =>
        rw [resolveUpTo, isSettled_named_iff.mp h]
      | pointer | array | function => rfl

/-! ## Counting links -/

/-- **So many links lead** from a type to another along a chain of type names. -/
inductive Leads (names : NameTable) : Nat → CType → CType → Prop where
  | here {t : CType} : Leads names 0 t t
  | link {n : Nat} {name : String} {q : Qualifiers} {target t : CType}
      (h : names.target? name = some target) (rest : Leads names n (target.qualified q) t) :
      Leads names (n + 1) (.named name q) t

/-- No link starts where a chain has ended. -/
theorem Leads.eq_zero_of_isSettled (h : names.Leads n s t) (hs : names.IsSettled s) : n = 0 := by
  cases h with
  | here => rfl
  | link htarget => exact nomatch (isSettled_named_iff.mp hs).symm.trans htarget

theorem leads_named_iff (h : names.target? name = some target) :
    names.Leads (n + 1) (.named name q) t ↔ names.Leads n (target.qualified q) t := by
  refine ⟨fun hleads => ?_, .link h⟩
  cases hleads with
  | link h' rest => exact Option.some.inj (h'.symm.trans h) ▸ rest

/-- What has not settled is a name that stands for another type. -/
theorem exists_link_of_not_isSettled (h : ¬ names.IsSettled s) :
    ∃ name q target, s = .named name q ∧ names.target? name = some target := by
  cases s with
  | named name q =>
    cases htarget : names.target? name with
    | none => exact absurd (isSettled_named_iff.mpr htarget) h
    | some target => exact ⟨name, q, target, rfl, htarget⟩
  | pointer | array | function => exact absurd (isSettled_of_name?_eq_none rfl) h

/-- **Following so many links settles** exactly where no chain is longer. -/
theorem isSettled_resolveUpTo_iff :
    names.IsSettled (names.resolveUpTo links s) ↔ ∀ n t, names.Leads n s t → n ≤ links := by
  induction links generalizing s with
  | zero =>
    refine ⟨fun h n t hleads => Nat.le_of_eq (hleads.eq_zero_of_isSettled h), fun h => ?_⟩
    by_cases hs : names.IsSettled s
    · exact hs
    · obtain ⟨name, q, target, rfl, htarget⟩ := exists_link_of_not_isSettled hs
      exact absurd (h 1 _ (.link htarget .here)) (Nat.not_succ_le_zero 0)
  | succ links ih =>
    by_cases hs : names.IsSettled s
    · rw [hs.resolveUpTo_eq]
      refine iff_of_true hs fun n t hleads => ?_
      rw [hleads.eq_zero_of_isSettled hs]
      exact Nat.zero_le _
    · obtain ⟨name, q, target, rfl, htarget⟩ := exists_link_of_not_isSettled hs
      rw [resolveUpTo, htarget]
      dsimp only
      rw [ih]
      refine ⟨fun h n t hleads => ?_,
        fun h n t hleads => Nat.le_of_succ_le_succ (h _ t (.link htarget hleads))⟩
      cases n with
      | zero => exact Nat.zero_le _
      | succ n => exact Nat.succ_le_succ (h n t ((leads_named_iff htarget).mp hleads))

/-! ## Files with short chains -/

/-- **Every chain of type names** in the file has fewer links than a number. -/
def ChainsBelow (names : NameTable) (limit : Nat) : Prop :=
  ∀ n s t, names.Leads n s t → n < limit

/-- The names of fixed-width types. -/
def fixedWidthNames : List String :=
  ["int8_t", "uint8_t", "int16_t", "uint16_t", "int32_t", "uint32_t", "int64_t", "intptr_t",
    "ptrdiff_t", "ssize_t", "uint64_t", "uintptr_t", "size_t"]

theorem mem_fixedWidthNames {builtin : String} (h : fixedWidthBuiltin? name = some builtin) :
    name ∈ fixedWidthNames := by
  rw [fixedWidthBuiltin?.eq_def] at h
  split at h <;> first | decide | contradiction

/-- A name that stands for a type is one that the file defines, or of a fixed width. -/
theorem mem_of_target? (h : names.target? name ≠ none) :
    name ∈ names.typedefs.map (·.1) ++ fixedWidthNames := by
  rw [List.mem_append]
  cases hlookup : names.typedefs.lookup name with
  | some target =>
    obtain ⟨before, after, hentries, -⟩ := List.lookup_eq_some_iff.mp hlookup
    refine .inl ?_
    rw [hentries, List.map_append, List.map_cons]
    exact List.mem_append_right _ List.mem_cons_self
  | none =>
    cases hbuiltin : fixedWidthBuiltin? name with
    | some builtin => exact .inr (mem_fixedWidthNames hbuiltin)
    | none => exact absurd (target?_eq_none_iff.mpr ⟨hlookup, hbuiltin⟩) h

instance (names : NameTable) (t : CType) : Decidable (names.IsSettled t) :=
  match t with
  | .named name _ => decidable_of_iff (names.target? name = none) isSettled_named_iff.symm
  | .pointer _ _ | .array _ _ | .function _ _ => isTrue fun _ h => nomatch h

/-- **Short chains can be seen** from the names that stand for types. -/
theorem chainsBelow_iff : names.ChainsBelow (links + 1) ↔
    ∀ name ∈ names.typedefs.map (·.1) ++ fixedWidthNames,
      names.IsSettled (names.resolveUpTo links (.plain name)) := by
  have hall : names.ChainsBelow (links + 1) ↔ ∀ s, names.IsSettled (names.resolveUpTo links s) := by
    simp only [ChainsBelow, isSettled_resolveUpTo_iff, Nat.lt_succ_iff]
    exact forall_comm
  refine hall.trans ⟨fun h name _ => h (.plain name), fun h s => ?_⟩
  by_cases hs : names.IsSettled s
  · rwa [hs.resolveUpTo_eq]
  · obtain ⟨name, q, target, rfl, htarget⟩ := exists_link_of_not_isSettled hs
    rw [← CType.qualified_plain, resolveUpTo_qualified, isSettled_qualified_iff]
    exact h name (mem_of_target? (by rw [htarget]; exact Option.some_ne_none target))

instance (names : NameTable) : ∀ limit, Decidable (names.ChainsBelow limit)
  | 0 => isFalse fun h => absurd (h 0 .int .int .here) (Nat.lt_irrefl 0)
  | _ + 1 => decidable_of_iff _ chainsBelow_iff.symm

/-! ## Resolution -/

/-- **Resolution carries qualifiers along and settles**: the qualifiers of a type come out on what it
stands for, even on a chain that never ends; the result stands for nothing else exactly if no chain
from the type has more links than are followed, and then it is what it resolves to itself. -/
theorem resolve_qualified_and_settles (names : NameTable) (t : CType) (q : Qualifiers) :
    names.resolve (t.qualified q) = (names.resolve t).qualified q ∧
      (names.IsSettled (names.resolve t) ↔ ∀ n x, names.Leads n t x → n ≤ maxLinks) ∧
      (names.ChainsBelow maxLinks →
        (∀ name, (names.resolve t).name? = some name →
          names.typedefs.lookup name = none ∧ fixedWidthBuiltin? name = none) ∧
        names.resolve (names.resolve t) = names.resolve t) := by
  refine ⟨resolveUpTo_qualified maxLinks t q, isSettled_resolveUpTo_iff, fun hchains => ?_⟩
  have hsettled : names.IsSettled (names.resolve t) :=
    isSettled_resolveUpTo_iff.mpr fun n x hleads => Nat.le_of_lt (hchains n t x hleads)
  exact ⟨fun name hname => target?_eq_none_iff.mp (hsettled name hname), hsettled.resolveUpTo_eq _⟩

/-- The names of a file that defines a word, and a size of its own for it to stand for. -/
def wordNames : NameTable where
  typedefs := [("word", .named "size_t" ⟨true, false⟩), ("size_t", .named "uint64_t" ⟨false, true⟩)]

/-- The word is an `unsigned long`, with the qualifiers of both definitions. -/
theorem resolve_word : wordNames.ChainsBelow maxLinks ∧
    wordNames.resolve (.plain "word") = .named "unsigned long" ⟨true, true⟩ ∧
      wordNames.resolve ((CType.plain "word").qualified ⟨true, false⟩) =
          (wordNames.resolve (.plain "word")).qualified ⟨true, false⟩ ∧
        wordNames.resolve (wordNames.resolve (.plain "word")) =
          wordNames.resolve (.plain "word") := by
  have hchains : wordNames.ChainsBelow maxLinks := by decide +kernel
  obtain ⟨hqualified, -, hsettles⟩ :=
    resolve_qualified_and_settles wordNames (.plain "word") ⟨true, false⟩
  exact ⟨hchains, by decide +kernel, hqualified, (hsettles hchains).2⟩

end NameTable

end ProbeWeaver
