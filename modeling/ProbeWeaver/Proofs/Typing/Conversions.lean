import ProbeWeaver.Proofs.Typing.Resolution
import ProbeWeaver.Typing.Expression

/-!
# Proofs/Typing/Conversions — what the arithmetic conversions give

Promotion and the usual arithmetic conversions give builtin types: a floating one if a floating type
is involved, and else an integer type of at least the rank of `int`.

* `promoted_spec`, `common?_spec` — the two steps.
* `typeOf_binary` — the type of a binary expression, from its operands.
-/

namespace ProbeWeaver

variable {names : NameTable} {t p l r c : CType} {name source : String}

/-! ## Names of builtin types -/

/-- The floating types. -/
def floatingNames : List String := ["float", "double", "long double"]

/-- The integer types that promotion leaves as they are. -/
def promotedNames : List String :=
  ["int", "unsigned int", "long", "unsigned long", "long long", "unsigned long long"]

theorem mem_floatingNames (h : isFloatingName name = true) : name ∈ floatingNames := by
  simpa [isFloatingName, floatingNames, or_assoc] using h

/-- Integer types of a smaller rank are promoted. -/
theorem mem_promotedNames {standing : IntegerStanding} (h : integerStanding? name = some standing)
    (hrank : ¬ standing.rank < 4) : name ∈ promotedNames := by
  rw [integerStanding?.eq_def] at h
  split at h <;> cases h <;> revert hrank <;> decide

/-- The type is an enumeration. -/
def isEnumName (name : String) : Bool := "enum ".toList.isPrefixOf name.toList

/-- The name is that of a builtin arithmetic type or of an enumeration. -/
def isArithmeticName (name : String) : Bool :=
  (integerStanding? name).isSome || isFloatingName name || isEnumName name

theorem isArithmeticName_of_mem : ∀ name ∈ floatingNames ++ promotedNames,
    isArithmeticName name = true := by
  decide +kernel

/-- Names of fixed-width types are no builtin names. -/
theorem fixedWidthBuiltin?_eq_none (h : isArithmeticName name = true) :
    fixedWidthBuiltin? name = none := by
  rw [fixedWidthBuiltin?.eq_def]
  split <;> first | rfl | exact absurd h (by decide +kernel)

namespace NameTable

/-- **The file defines no type of a builtin name**, as keywords are not its to define. -/
def KeepsBuiltins (names : NameTable) : Prop :=
  ∀ entry ∈ names.typedefs, isArithmeticName entry.1 = false

instance (names : NameTable) : Decidable names.KeepsBuiltins :=
  inferInstanceAs (Decidable (∀ entry ∈ names.typedefs, _))

/-- A builtin name stands for itself. -/
theorem KeepsBuiltins.target?_eq_none (h : names.KeepsBuiltins)
    (hname : isArithmeticName name = true) : names.target? name = none := by
  have hlookup : names.typedefs.lookup name = none := by
    rw [List.lookup_eq_none_iff]
    intro entry hentry
    rw [bne_iff_ne]
    rintro rfl
    exact absurd hname (by rw [h entry hentry]; decide)
  rw [target?, hlookup, fixedWidthBuiltin?_eq_none hname]
  rfl

/-! ## Promotion -/

/-- **Behind the type stands an integer type**, builtin or an enumeration. -/
def IsIntegral (names : NameTable) (t : CType) : Prop :=
  ∃ x name, names.ResolvesTo t x ∧ x.name? = some name ∧
    ((integerStanding? name).isSome = true ∨ isEnumName name = true)

/-- A promoted type: an integer type if it stands for integers, and else a floating one. -/
def IsPromoted (p : CType) (integral : Prop) : Prop :=
  (integral ∧ ∃ name ∈ promotedNames, p = .plain name) ∨
    (¬ integral ∧ ∃ name ∈ floatingNames, p = .plain name)

theorem IsPromoted.exists_plain {integral : Prop} (h : IsPromoted p integral) :
    ∃ name ∈ floatingNames ++ promotedNames, p = .plain name := by
  rcases h with ⟨-, name, hmem, rfl⟩ | ⟨-, name, hmem, rfl⟩
  · exact ⟨name, List.mem_append_right _ hmem, rfl⟩
  · exact ⟨name, List.mem_append_left _ hmem, rfl⟩

/-- The resolved type tells whether the type is integral. -/
theorem KeepsBuiltins.isIntegral_iff (h : names.KeepsBuiltins)
    (hname : (names.resolve t).name? = some name) (hbuiltin : isArithmeticName name = true) :
    names.IsIntegral t ↔ (integerStanding? name).isSome = true ∨ isEnumName name = true := by
  have hsettled : names.IsSettled (names.resolve t) := fun other hother =>
    Option.some.inj (hname.symm.trans hother) ▸ h.target?_eq_none hbuiltin
  constructor
  · rintro ⟨x, other, hx, hother, hintegral⟩
    obtain rfl := (resolvesTo_iff_of_isSettled hsettled).mp hx
    rwa [Option.some.inj (hname.symm.trans hother)]
  · exact fun hintegral =>
      ⟨_, name, (resolvesTo_iff_of_isSettled hsettled).mpr rfl, hname, hintegral⟩

/-- No floating type is an integer type. -/
theorem not_integral_of_floating : ∀ name ∈ floatingNames,
    ¬ ((integerStanding? name).isSome = true ∨ isEnumName name = true) := by
  decide +kernel

/-- **What promotion gives.** -/
theorem KeepsBuiltins.promoted_spec (h : names.KeepsBuiltins) (hp : names.promoted t = some p) :
    IsPromoted p (names.IsIntegral t) := by
  obtain ⟨name, hname, hp⟩ := Option.bind_eq_some_iff.mp hp
  rw [CType.name?_unqualified] at hname
  have hplain : (names.resolve t).unqualified = .plain name := by
    obtain ⟨q, hq⟩ := CType.exists_named_of_name? hname
    rw [hq]
    rfl
  split at hp
  · next hfloating =>
    have hmem := mem_floatingNames hfloating
    have hbuiltin := isArithmeticName_of_mem name (List.mem_append_left _ hmem)
    refine .inr ⟨?_, name, hmem, (Option.some.inj hp).symm.trans hplain⟩
    rw [h.isIntegral_iff hname hbuiltin]
    exact not_integral_of_floating name hmem
  · split at hp
    · next henum =>
      have hbuiltin : isArithmeticName name = true := Bool.or_eq_true_iff.mpr (.inr henum)
      exact .inl ⟨(h.isIntegral_iff hname hbuiltin).mpr (.inr henum), "int", by decide,
        (Option.some.inj hp).symm⟩
    · obtain ⟨standing, hstanding, hp⟩ := Option.bind_eq_some_iff.mp hp
      have hsome : (integerStanding? name).isSome = true := Option.isSome_iff_exists.mpr ⟨_, hstanding⟩
      have hbuiltin : isArithmeticName name = true := by
        rw [isArithmeticName, hsome, Bool.true_or, Bool.true_or]
      refine .inl ⟨(h.isIntegral_iff hname hbuiltin).mpr (.inl hsome), ?_⟩
      split at hp
      · exact ⟨"int", by decide, (Option.some.inj hp).symm⟩
      · next hrank =>
        exact ⟨name, mem_promotedNames hstanding hrank, (Option.some.inj hp).symm.trans hplain⟩

/-! ## The common type -/

/-- Two integer types have an integer type in common. -/
theorem common?_of_promotedNames : ∀ l ∈ promotedNames, ∀ r ∈ promotedNames,
    ∃ name ∈ promotedNames, common? (.plain l) (.plain r) = some (.plain name) := by
  decide +kernel

/-- A floating type is what it has in common with any other. -/
theorem common?_of_floatingNames : ∀ l ∈ floatingNames ++ promotedNames,
    ∀ r ∈ floatingNames ++ promotedNames, l ∈ floatingNames ∨ r ∈ floatingNames →
      ∃ name ∈ floatingNames, common? (.plain l) (.plain r) = some (.plain name) := by
  decide +kernel

/-- **What the usual arithmetic conversions give**: an integer type exactly for two integer types. -/
theorem common?_spec {lintegral rintegral : Prop} (hl : IsPromoted l lintegral)
    (hr : IsPromoted r rintegral) (hc : common? l r = some c) :
    IsPromoted c (lintegral ∧ rintegral) := by
  have hfloat {ln rn : String} (hln : ln ∈ floatingNames ++ promotedNames)
      (hrn : rn ∈ floatingNames ++ promotedNames) (hfloat : ln ∈ floatingNames ∨ rn ∈ floatingNames)
      (hc : common? (.plain ln) (.plain rn) = some c) : ∃ name ∈ floatingNames, c = .plain name := by
    obtain ⟨name, hname, heq⟩ := common?_of_floatingNames ln hln rn hrn hfloat
    exact ⟨name, hname, Option.some.inj (hc.symm.trans heq)⟩
  rcases hl with ⟨hl, ln, hln, rfl⟩ | ⟨hl, ln, hln, rfl⟩ <;>
    rcases hr with ⟨hr, rn, hrn, rfl⟩ | ⟨hr, rn, hrn, rfl⟩
  · obtain ⟨name, hname, heq⟩ := common?_of_promotedNames ln hln rn hrn
    exact .inl ⟨⟨hl, hr⟩, name, hname, Option.some.inj (hc.symm.trans heq)⟩
  · exact .inr ⟨fun h => hr h.2, hfloat (List.mem_append_right _ hln) (List.mem_append_left _ hrn)
      (.inr hrn) hc⟩
  · exact .inr ⟨fun h => hl h.1, hfloat (List.mem_append_left _ hln) (List.mem_append_right _ hrn)
      (.inl hln) hc⟩
  · exact .inr ⟨fun h => hl h.1, hfloat (List.mem_append_left _ hln) (List.mem_append_left _ hrn)
      (.inl hln) hc⟩

/-! ## Binary expressions -/

/-- **The type of a binary expression** comes from the types of its operands. -/
theorem typeOf_binary {n left right : Node} {op : String} (hkind : n.kind = .binaryExpression)
    (hop : n.operator? source = some op) (hleft : n.field? .left = some left)
    (hright : n.field? .right = some right) : names.typeOf source n =
      names.typeOfBinary op (names.typeOf source left) (names.typeOf source right) := by
  rw [typeOf, hkind]
  simp [hop, hleft, hright]

end NameTable

end ProbeWeaver
