import ProbeWeaver.Typing.NameTable

/-!
# Proofs/Typing/Resolution — the types behind type names

A type name stands for a type, which may be a type name again.  `NameTable.ResolvesTo` is where such a
chain ends, however long it is; `NameTable.resolve` gives it up after sixteen links.

* `ResolvesTo.unique` — a chain has one end.
* `resolvesTo_resolve_iff` — wherever it is given up, the end is the same.
* `ResolvesTo.congr` — qualifiers do not change the end, but for its own qualifiers.
-/

namespace ProbeWeaver

variable {names : NameTable} {s t x y : CType} {name : String} {target : CType} {q : Qualifiers}

namespace CType

theorem unqualified_qualified : ∀ (t : CType) (q : Qualifiers),
    (t.qualified q).unqualified = t.unqualified
  | .named _ _, _ | .pointer _ _, _ | .function _ _, _ => rfl
  | .array element size, q => by
      rw [qualified, unqualified, unqualified, unqualified_qualified element q]

theorem name?_unqualified (t : CType) : t.unqualified.name? = t.name? := by cases t <;> rfl

theorem exists_named_of_name? (h : t.name? = some name) : ∃ q, t = .named name q := by
  cases t with
  | named _ q => exact ⟨q, congrArg (named · q) (Option.some.inj h)⟩
  | pointer | array | function => exact nomatch h

end CType

namespace NameTable

/-- The type is no name that stands for another type. -/
def IsSettled (names : NameTable) (t : CType) : Prop :=
  ∀ name, t.name? = some name → names.target? name = none

theorem isSettled_of_name?_eq_none (h : t.name? = none) : names.IsSettled t :=
  fun _ hname => nomatch h.symm.trans hname

theorem isSettled_named_iff : names.IsSettled (.named name q) ↔ names.target? name = none :=
  ⟨fun h => h name rfl, fun h _ hname => Option.some.inj hname ▸ h⟩

/-- **The type at the end of a chain of type names**, with the qualifiers that gather on the way. -/
inductive ResolvesTo (names : NameTable) : CType → CType → Prop where
  | settled {t : CType} (h : names.IsSettled t) : ResolvesTo names t t
  | link {name : String} {q : Qualifiers} {target t : CType} (h : names.target? name = some target)
      (rest : ResolvesTo names (target.qualified q) t) : ResolvesTo names (.named name q) t

theorem resolvesTo_named_iff (h : names.target? name = some target) :
    names.ResolvesTo (.named name q) t ↔ names.ResolvesTo (target.qualified q) t := by
  refine ⟨fun hr => ?_, .link h⟩
  cases hr with
  | settled hs => exact nomatch (isSettled_named_iff.mp hs).symm.trans h
  | link h' rest => exact Option.some.inj (h'.symm.trans h) ▸ rest

theorem IsSettled.resolvesTo_iff (h : names.IsSettled s) : names.ResolvesTo s t ↔ t = s := by
  refine ⟨fun hr => ?_, ?_⟩
  · cases hr with
    | settled => rfl
    | link h' => exact nomatch (isSettled_named_iff.mp h).symm.trans h'
  · rintro rfl
    exact .settled h

/-- **A chain has one end.** -/
theorem ResolvesTo.unique (hx : names.ResolvesTo t x) (hy : names.ResolvesTo t y) : x = y := by
  induction hx with
  | settled h => exact (h.resolvesTo_iff.mp hy).symm
  | link h _ ih => exact ih ((resolvesTo_named_iff h).mp hy)

/-- Links that are followed stay on the chain. -/
theorem resolvesTo_resolveUpTo_iff : ∀ (links : Nat) (s : CType),
    names.ResolvesTo (names.resolveUpTo links s) t ↔ names.ResolvesTo s t
  | 0, _ | _ + 1, .pointer _ _ | _ + 1, .array _ _ | _ + 1, .function _ _ => Iff.rfl
  | links + 1, .named name q => by
      rw [resolveUpTo]
      cases h : names.target? name with
      | none => exact Iff.rfl
      | some target =>
        exact (resolvesTo_resolveUpTo_iff links _).trans (resolvesTo_named_iff h).symm

/-- **Resolution stays on the chain**, even where it is given up. -/
theorem resolvesTo_resolve_iff : names.ResolvesTo (names.resolve s) t ↔ names.ResolvesTo s t :=
  resolvesTo_resolveUpTo_iff maxLinks s

/-- Resolution that settles has found the end. -/
theorem resolvesTo_iff_of_isSettled (h : names.IsSettled (names.resolve s)) :
    names.ResolvesTo s t ↔ t = names.resolve s :=
  resolvesTo_resolve_iff.symm.trans h.resolvesTo_iff

/-- **Qualifiers do not change the end**, but for its own qualifiers. -/
theorem ResolvesTo.congr (h : names.ResolvesTo s x) (hst : t.unqualified = s.unqualified) :
    ∃ y, names.ResolvesTo t y ∧ y.unqualified = x.unqualified := by
  induction h generalizing t with
  | @settled s h =>
    refine ⟨t, .settled fun name hname => h name ?_, hst⟩
    rw [← CType.name?_unqualified, ← hst, CType.name?_unqualified, hname]
  | @link name q target _ h _ ih =>
    have hname : t.name? = some name := by
      rw [← CType.name?_unqualified, hst]
      rfl
    obtain ⟨q', rfl⟩ := CType.exists_named_of_name? hname
    obtain ⟨y, hy, hxy⟩ := ih (t := target.qualified q')
      (by rw [CType.unqualified_qualified, CType.unqualified_qualified])
    exact ⟨y, .link h hy, hxy⟩

end NameTable

end ProbeWeaver
