import ProbeWeaver.Proofs.Passes.HookTargets
import ProbeWeaver.Proofs.Passes.Notices
import ProbeWeaver.Proofs.Typing.Conversions

/-!
# Proofs/Passes/Integers — the types in which operands are reported

An operand is reported in the type that the operator converts it to: a builtin type, or the name that
the operand was declared with, if that name stands for the common type.  A builtin type spells its
sign; a name need not.

* `Rule.Listed.operands` — what a match with two operands is.
* `Observation.reportsInteger_iff` — when both operands are reported as the integers that they are.
-/

namespace ProbeWeaver

open Rule (IsPart)

variable {names : NameTable} {t T L R y c : CType} {name : String} {u : SourceUnit} {m : Match}
  {r : Rule} {op : String} {expr left right : Node}

/-! ## Types as they are printed -/

namespace NameTable

/-- The format and the cast of an integer, by its sign. -/
def conversionOf (isSigned : Bool) : String × String :=
  if isSigned then ("%lld", "long long") else ("%llu", "unsigned long long")

/-- **The type is reported as the integer type that it is**: a builtin integer type stands behind it,
and it is printed with the sign of that one. -/
def ReportsInteger (names : NameTable) (t : CType) : Prop :=
  ∃ x name standing, names.ResolvesTo t x ∧ x.name? = some name ∧
    integerStanding? name = some standing ∧
      Observation.printConversion t.render = conversionOf standing.isSigned

/-- **The name tells the sign**: one that stands for an integer type spells `uint` or `unsigned`
exactly when that type is unsigned.  Types that stand for no other are not asked. -/
def TellsSign (names : NameTable) (t : CType) : Prop :=
  ∀ name, t = .plain name → names.target? name ≠ none → ∀ x other standing,
    names.ResolvesTo t x → x.name? = some other → integerStanding? other = some standing →
      ((Text.contains name "uint" || Text.contains name "unsigned") = true ↔
        standing.isSigned = false)

theorem render_plain (name : String) : (CType.plain name).render = name := by
  simp [CType.plain, CType.render, CType.spellAround, Qualifiers.leading, Qualifiers.none]

/-- The spelling decides how a name is printed. -/
theorem printConversion_eq_iff (isSigned : Bool) :
    Observation.printConversion (CType.plain name).render = conversionOf isSigned ↔
      ((Text.contains name "uint" || Text.contains name "unsigned") = true ↔ isSigned = false) := by
  rw [render_plain, Observation.printConversion]
  cases isSigned <;>
    cases Text.contains name "uint" || Text.contains name "unsigned" <;> decide

/-- Builtin types spell their sign. -/
theorem spells_promotedNames : ∀ name ∈ promotedNames, ∃ standing,
    integerStanding? name = some standing ∧
      ((Text.contains name "uint" || Text.contains name "unsigned") = true ↔
        standing.isSigned = false) := by
  decide +kernel

/-- **A name for an integer type** is reported as such if it tells the sign, and only then. -/
theorem reportsInteger_iff_tellsSign (hy : names.ResolvesTo (.plain name) y)
    {other : String} (hother : y.name? = some other) (hmem : other ∈ promotedNames) :
    names.ReportsInteger (.plain name) ↔ names.TellsSign (.plain name) := by
  obtain ⟨standing, hstanding, hspells⟩ := spells_promotedNames other hmem
  constructor
  · rintro ⟨x, other', standing', hx, hother', hstanding', hprint⟩ n hn - x₂ other₂ standing₂ hx₂
      hother₂ hstanding₂
    obtain rfl : name = n := (CType.named.inj hn).1
    obtain rfl := hx.unique hx₂
    obtain rfl := Option.some.inj (hother'.symm.trans hother₂)
    obtain rfl := Option.some.inj (hstanding'.symm.trans hstanding₂)
    exact (printConversion_eq_iff _).mp hprint
  · intro htells
    refine ⟨y, other, standing, hy, hother, hstanding, (printConversion_eq_iff _).mpr ?_⟩
    cases htarget : names.target? name with
    | some target =>
      exact htells name rfl (by rw [htarget]; exact Option.some_ne_none target) y other standing hy
        hother hstanding
    | none =>
      obtain rfl := (isSettled_named_iff.mpr htarget).resolvesTo_iff.mp hy
      obtain rfl : name = other := Option.some.inj hother
      exact hspells

/-- A name for a floating type is not. -/
theorem not_reportsInteger (hy : names.ResolvesTo (.plain name) y) {other : String}
    (hother : y.name? = some other) (hmem : other ∈ floatingNames) :
    ¬ names.ReportsInteger (.plain name) := by
  rintro ⟨x, other', standing, hx, hother', hstanding, -⟩
  obtain rfl := hx.unique hy
  obtain rfl := Option.some.inj (hother'.symm.trans hother)
  exact not_integral_of_floating other' hmem (.inl (Option.isSome_iff_exists.mpr ⟨_, hstanding⟩))

/-- A pointer, an array or a function stands for no integer type, and it is not reported as one. -/
theorem not_integral_of_isPointer (h : (names.resolve t).decayed.isPointer = true) :
    ¬ names.IsIntegral t ∧ ¬ names.ReportsInteger t := by
  have hnone : (names.resolve t).name? = none := by
    cases hr : names.resolve t with
    | named => exact nomatch hr ▸ h
    | pointer | array | function => rfl
  have hunnamed {x : CType} {name : String} (hx : names.ResolvesTo t x) : x.name? ≠ some name := by
    rw [(resolvesTo_iff_of_isSettled (isSettled_of_name?_eq_none hnone)).mp hx, hnone]
    exact nofun
  refine ⟨?_, ?_⟩
  · rintro ⟨x, name, hx, hname, -⟩
    exact hunnamed hx hname
  · rintro ⟨x, name, -, hx, hname, -⟩
    exact hunnamed hx hname

/-! ## Kept types -/

/-- The type is a name, and behind it stands the common type. -/
def StandsFor (names : NameTable) (T c : CType) : Prop :=
  ∃ name other y, T = .plain name ∧ c = .plain other ∧ names.ResolvesTo T y ∧ y.name? = some other

theorem KeepsBuiltins.standsFor_self (h : names.KeepsBuiltins)
    (hname : name ∈ floatingNames ++ promotedNames) :
    names.StandsFor (.plain name) (.plain name) :=
  ⟨name, name, .plain name, rfl, rfl,
    .settled (isSettled_named_iff.mpr (h.target?_eq_none (isArithmeticName_of_mem name hname))), rfl⟩

/-- **The type that is kept** stands for the common type. -/
theorem KeepsBuiltins.standsFor_keptType {integral : Prop} (h : names.KeepsBuiltins)
    (hc : IsPromoted c integral) :
    names.StandsFor (Observation.keptType c t (names.resolve t).decayed) c := by
  obtain ⟨name, hname, rfl⟩ := hc.exists_plain
  rw [Observation.keptType]
  split
  · next hkept =>
    have hresolved : (names.resolve t).name? = some name := by
      have hdecayed : (names.resolve t).decayed.name? = some name := by
        rw [← CType.name?_unqualified, hkept]
        rfl
      cases hr : names.resolve t with
      | named => rwa [hr] at hdecayed
      | pointer | array | function => exact nomatch hr ▸ hdecayed
    have hsettled : names.IsSettled (names.resolve t) := fun other hother =>
      Option.some.inj (hresolved.symm.trans hother) ▸
        h.target?_eq_none (isArithmeticName_of_mem name hname)
    obtain ⟨declared, q, rfl⟩ : ∃ declared q, t = .named declared q := by
      cases t with
      | named declared q => exact ⟨declared, q, rfl⟩
      | pointer | array | function => exact nomatch hresolved
    obtain ⟨y, hy, hunqualified⟩ := ((resolvesTo_iff_of_isSettled hsettled).mpr rfl).congr
      (t := CType.plain declared) rfl
    refine ⟨declared, name, y, rfl, rfl, hy, ?_⟩
    rw [← CType.name?_unqualified, hunqualified, CType.name?_unqualified, hresolved]
  · exact h.standsFor_self hname

theorem KeepsBuiltins.standsFor_of_isPromoted {integral : Prop} (h : names.KeepsBuiltins)
    (hc : IsPromoted c integral) : names.StandsFor c c := by
  obtain ⟨name, hname, rfl⟩ := hc.exists_plain
  exact h.standsFor_self hname

/-- **A type that stands for the common type** is reported as an integer if the common type is one
and the name tells the sign. -/
theorem StandsFor.reportsInteger_iff {integral : Prop} (h : names.StandsFor T c)
    (hc : IsPromoted c integral) :
    names.ReportsInteger T ↔ integral ∧ names.TellsSign T := by
  obtain ⟨name, other, y, rfl, rfl, hy, hother⟩ := h
  rcases hc with ⟨hintegral, builtin, hmem, heq⟩ | ⟨hnot, builtin, hmem, heq⟩
  · obtain rfl : other = builtin := (CType.named.inj heq).1
    rw [reportsInteger_iff_tellsSign hy hother hmem]
    exact (and_iff_right hintegral).symm
  · obtain rfl : other = builtin := (CType.named.inj heq).1
    exact ⟨fun hr => absurd hr (not_reportsInteger hy hother hmem), fun hr => absurd hr.1 hnot⟩

end NameTable

/-! ## Operands -/

/-- **Each binary expression has one left and one right operand** at most. -/
def SourceUnit.PairsOperands (u : SourceUnit) : Prop :=
  ∀ n ∈ u.root.walk, n.kind = .binaryExpression → ∀ f ∈ [Field.left, .right],
    (n.fillers f).length ≤ 1

instance (u : SourceUnit) : Decidable u.PairsOperands :=
  inferInstanceAs (Decidable (∀ n ∈ u.root.walk, n.kind = .binaryExpression →
    ∀ f ∈ [Field.left, .right], (n.fillers f).length ≤ 1))

/-- The only one that fills a field is the one that the field is read as. -/
theorem Node.field?_of_length_le {n c : Node} {f : Field} (hlen : (n.fillers f).length ≤ 1)
    (hc : c ∈ n.children) (hfield : c.tree.field = some f) : n.field? f = some c := by
  have hmem : c ∈ n.fillers f := List.mem_filter.mpr ⟨hc, beq_iff_eq.mpr hfield⟩
  have hfillers : n.fillers f = [c] := by
    obtain ⟨d, hd⟩ := List.length_eq_one_iff.mp
      (Nat.le_antisymm hlen (List.length_pos_of_mem hmem))
    rw [hd] at hmem ⊢
    rw [List.mem_singleton.mp hmem]
  rw [field?, ← List.head?_filter]
  exact congrArg List.head? hfillers

open Observation in
/-- **The rules that quote a part of their construct**, with the name that they give it. -/
def Rule.quoting : List (String × Rule) :=
  [("left", integerRule), ("left", dividerRule), ("left", Hooks.integerRule),
    ("idx", arrayIndexRule), ("offset", pointerIndexRule)]

/-- The names that they give. -/
def Rule.quotedNames : List String := ["left", "idx", "offset"]

/-- **No other rule gives such a name.** -/
theorem Rule.Listed.mem_quoting (h : r.Listed) {name : String} (hname : name ∈ quotedNames)
    (hmentions : r.mentions name = true) : (name, r) ∈ quoting := by
  have hnone {s : Rule} (hs : ∀ other ∈ quotedNames, s.mentions other = false) :
      s.mentions name = false := hs name hname
  have hone {s : Rule} (given : String) (hs : ∀ other ∈ quotedNames,
      s.mentions other = true → other = given) (hmentions : s.mentions name = true) : name = given :=
    hs name hname hmentions
  cases h with
  | integer =>
    rw [hone "left" (by decide) hmentions]
    exact .head _
  | divider =>
    rw [hone "left" (by decide) hmentions]
    exact .tail _ (.head _)
  | hookedOperands =>
    rw [hone "left" (by decide) hmentions]
    exact .tail _ (.tail _ (.head _))
  | arrayIndex =>
    rw [hone "idx" (by decide) hmentions]
    exact .tail _ (.tail _ (.tail _ (.head _)))
  | pointerIndex =>
    rw [hone "offset" (by decide) hmentions]
    exact .tail _ (.tail _ (.tail _ (.tail _ (.head _))))
  | labelled mem =>
    simp only [Braces.labelSet, RuleSet.rules, List.mem_cons, List.not_mem_nil, or_false] at mem
    rcases mem with rfl | rfl <;>
      exact absurd hmentions (Bool.eq_false_iff.mp (hnone (by decide)))
  | memory mem =>
    simp only [Observation.memorySet, RuleSet.rules, List.mem_cons, List.not_mem_nil,
      or_false] at mem
    rcases mem with rfl | rfl | rfl | rfl | rfl <;>
      exact absurd hmentions (Bool.eq_false_iff.mp (hnone (by decide)))
  | pointer mem =>
    simp only [Observation.pointerSet, RuleSet.rules, List.mem_cons, List.not_mem_nil,
      or_false] at mem
    rcases mem with rfl | rfl | rfl | rfl <;>
      exact absurd hmentions (Bool.eq_false_iff.mp (hnone (by decide)))
  | hookedPointer mem =>
    simp only [Hooks.pointerSet, RuleSet.rules, List.mem_cons, List.not_mem_nil, or_false] at mem
    rcases mem with rfl | rfl <;>
      exact absurd hmentions (Bool.eq_false_iff.mp (hnone (by decide)))
  | relocation lottery | free lottery =>
    simp only [quotedNames, List.mem_cons, List.not_mem_nil, or_false] at hname
    rcases hname with rfl | rfl | rfl <;> cases hmentions
  | thenBranch | elseBranch | loopBody | block | declaration | site | entry | flags | init
    | hookedIndex | definitions | helpers =>
    exact absurd hmentions (Bool.eq_false_iff.mp (hnone (by decide)))

/-- **Three rules name a left operand.** -/
theorem Rule.Listed.eq_of_mentions (h : r.Listed) (hleft : r.mentions "left" = true) :
    r = Observation.integerRule ∨ r = Observation.dividerRule ∨ r = Hooks.integerRule := by
  have hmem := h.mem_quoting (by decide) hleft
  simpa [quoting] using hmem

namespace Observation

/-- The operands of the pattern, each in its field. -/
theorem relates_bothOperands (ruleName : String) :
    (Rule.ofPattern ruleName bothOperands).Relates "left" (IsPart .binaryExpression [.left]) ∧
      (Rule.ofPattern ruleName bothOperands).Relates "right"
        (IsPart .binaryExpression [.right]) :=
  ⟨Rule.relates_field ruleName .binaryExpression [(.left, "left"), (.right, "right")] (by decide)
      (by decide),
    Rule.relates_field ruleName .binaryExpression [(.left, "left"), (.right, "right")] (by decide)
      (by decide)⟩

/-- The operator of an accepted match is one of the listed. -/
theorem mem_of_operatorIn {ops : List String} (h : operatorIn ops m u = true)
    (hop : u.operator? m.root = some op) : op ∈ ops := by
  rw [operatorIn, hop] at h
  exact List.contains_iff_mem.mp h

end Observation

open Observation in
/-- **A match that names a left and a right operand** is an arithmetic expression with its
operands. -/
theorem Rule.Listed.operands (h : r.Listed) {t : Tree} (hu : u.root = .root t) (hm : r.Offers u m)
    (hfilters : ∀ f ∈ r.filters, f m u = true) (hleft : m.node? "left" = some left)
    (hright : m.node? "right" = some right) (hop : u.operator? m.root = some op) :
    op ∈ Hooks.integerOperators ∧ IsPart .binaryExpression [.left] m.root left ∧
      IsPart .binaryExpression [.right] m.root right := by
  rcases h.eq_of_mentions (hm.mentions hu (by decide) hleft) with rfl | rfl | rfl
  · have hops := mem_of_operatorIn (hfilters (operatorIn ["+", "-", "*", "<<", ">>"])
      (.tail _ (.head _))) hop
    have hrelates := relates_bothOperands "value-integer"
    refine ⟨?_, (hrelates.1.bind (by decide)) hu hm hleft, (hrelates.2.bind (by decide)) hu hm hright⟩
    exact (show ∀ op ∈ ["+", "-", "*", "<<", ">>"], op ∈ Hooks.integerOperators by decide) op hops
  · have hops := mem_of_operatorIn (hfilters (operatorIn ["/", "%"]) (.tail _ (.head _))) hop
    have hrelates := relates_bothOperands "value-divider"
    refine ⟨?_, (hrelates.1.bind (by decide)) hu hm hleft, (hrelates.2.bind (by decide)) hu hm hright⟩
    exact (show ∀ op ∈ ["/", "%"], op ∈ Hooks.integerOperators by decide) op hops
  · have hops := hfilters Hooks.hasIntegerOperator (.tail _ (.head _))
    rw [Hooks.hasIntegerOperator, hop] at hops
    exact ⟨List.contains_iff_mem.mp hops, Hooks.relates_operand (.inl rfl) hu hm hleft,
      Hooks.relates_operand (.inr rfl) hu hm hright⟩

namespace Observation

/-- The operator of arithmetic is no comparison. -/
theorem typeOf_arithmetic (hkind : expr.kind = .binaryExpression) (hop : u.operator? expr = some op)
    (hops : op ∈ Hooks.integerOperators) (hshift : NameTable.isShift op = false)
    (hleft : expr.field? .left = some left) (hright : expr.field? .right = some right)
    (hL : u.typeOf left = some L) (hR : u.typeOf right = some R)
    (hl : (u.resolve L).decayed.isPointer = false) (hr : (u.resolve R).decayed.isPointer = false) :
    u.typeOf expr = u.names.usualConversion (u.resolve L) (u.resolve R) := by
  have htruth : ∀ op ∈ Hooks.integerOperators, NameTable.isTruthOperator op = false := by decide
  have hdecayed {t : CType} (h : t.decayed.isPointer = false) : t.decayed = t := by
    cases t with
    | named => rfl
    | pointer | array | function => exact nomatch h
  rw [SourceUnit.typeOf] at hL hR ⊢
  rw [NameTable.typeOf_binary hkind hop hleft hright, hL, hR, NameTable.typeOfBinary,
    if_neg (Bool.eq_false_iff.mp (htruth op hops))]
  show (if NameTable.isShift op = true then _ else u.names.sumType op _ _) = _
  rw [if_neg (Bool.eq_false_iff.mp hshift), NameTable.sumType]
  rw [SourceUnit.resolve] at hl hr
  rw [hl, hr, hdecayed hl, hdecayed hr, ite_self]
  rfl

/-- **The types in which operands are reported**, by the operator and the operands: after promotion,
as they are next to a pointer, or kept from the common type. -/
theorem convertedTypes?_cases {lt rt : CType}
    (h : convertedTypes? u op expr left right = some (lt, rt)) :
    ∃ L R, u.typeOf left = some L ∧ u.typeOf right = some R ∧
      ((NameTable.isShift op = true ∧ u.names.promoted L = some lt ∧ u.names.promoted R = some rt) ∨
        (((u.resolve L).decayed.isPointer = true ∨ (u.resolve R).decayed.isPointer = true) ∧
          lt = L ∧ rt = R) ∨
        (NameTable.isShift op = false ∧ (u.resolve L).decayed.isPointer = false ∧
          (u.resolve R).decayed.isPointer = false ∧ ∃ common, u.typeOf expr = some common ∧
            lt = keptType common L (u.resolve L).decayed ∧
              rt = keptType common R (u.resolve R).decayed)) := by
  obtain ⟨L, hL, h⟩ := Option.bind_eq_some_iff.mp h
  obtain ⟨R, hR, h⟩ := Option.bind_eq_some_iff.mp h
  refine ⟨L, R, hL, hR, ?_⟩
  split at h
  · next hshift =>
    obtain ⟨l, hl, h⟩ := Option.bind_eq_some_iff.mp h
    obtain ⟨r, hr, h⟩ := Option.bind_eq_some_iff.mp h
    obtain ⟨rfl, rfl⟩ := Prod.mk.inj (Option.some.inj h)
    exact .inl ⟨hshift, hl, hr⟩
  · next hshift =>
    dsimp only at h
    split at h
    · next hpointer =>
      obtain ⟨rfl, rfl⟩ := Prod.mk.inj (Option.some.inj h)
      exact .inr (.inl ⟨Bool.or_eq_true_iff.mp hpointer, rfl, rfl⟩)
    · next hpointer =>
      obtain ⟨hl, hr⟩ := Bool.or_eq_false_iff.mp (Bool.eq_false_iff.mpr hpointer)
      obtain ⟨common, hcommon, h⟩ := Option.bind_eq_some_iff.mp h
      obtain ⟨rfl, rfl⟩ := Prod.mk.inj (Option.some.inj h)
      exact .inr (.inr ⟨Bool.eq_false_iff.mpr hshift, hl, hr, common, hcommon, rfl, rfl⟩)

/-- **Both operands are reported as the integers that they are** if integer types stand behind their
types and the reported names tell the sign, and only then. -/
theorem reportsInteger_iff {lt rt : CType} (hkeeps : u.names.KeepsBuiltins)
    (hkind : expr.kind = .binaryExpression) (hop : u.operator? expr = some op)
    (hops : op ∈ Hooks.integerOperators) (hleft : expr.field? .left = some left)
    (hright : expr.field? .right = some right)
    (h : convertedTypes? u op expr left right = some (lt, rt)) :
    ∃ L R, u.typeOf left = some L ∧ u.typeOf right = some R ∧
      (u.names.ReportsInteger lt ∧ u.names.ReportsInteger rt ↔
        (u.names.IsIntegral L ∧ u.names.IsIntegral R) ∧
          u.names.TellsSign lt ∧ u.names.TellsSign rt) := by
  obtain ⟨L, R, hL, hR, hcases⟩ := convertedTypes?_cases h
  refine ⟨L, R, hL, hR, ?_⟩
  rcases hcases with ⟨-, hl, hr⟩ | ⟨hpointer, rfl, rfl⟩ |
    ⟨hshift, hl, hr, common, hcommon, rfl, rfl⟩
  · have hpl := hkeeps.promoted_spec hl
    have hpr := hkeeps.promoted_spec hr
    rw [(hkeeps.standsFor_of_isPromoted hpl).reportsInteger_iff hpl,
      (hkeeps.standsFor_of_isPromoted hpr).reportsInteger_iff hpr]
    exact and_and_and_comm
  · rcases hpointer with hpointer | hpointer
    · obtain ⟨hnot, hnot'⟩ := NameTable.not_integral_of_isPointer hpointer
      exact ⟨fun hr => absurd hr.1 hnot', fun hr => absurd hr.1.1 hnot⟩
    · obtain ⟨hnot, hnot'⟩ := NameTable.not_integral_of_isPointer hpointer
      exact ⟨fun hr => absurd hr.2 hnot', fun hr => absurd hr.1.2 hnot⟩
  · rw [typeOf_arithmetic hkind hop hops hshift hleft hright hL hR hl hr] at hcommon
    obtain ⟨pl, hpl, hcommon⟩ := Option.bind_eq_some_iff.mp hcommon
    obtain ⟨pr, hpr, hcommon⟩ := Option.bind_eq_some_iff.mp hcommon
    have hpromoted := NameTable.common?_spec (hkeeps.promoted_spec hpl) (hkeeps.promoted_spec hpr)
      hcommon
    have hintegral (t : CType) : u.names.IsIntegral (u.resolve t) ↔ u.names.IsIntegral t := by
      simp only [NameTable.IsIntegral, SourceUnit.resolve, NameTable.resolvesTo_resolve_iff]
    rw [hintegral, hintegral] at hpromoted
    rw [SourceUnit.resolve, SourceUnit.resolve,
      (hkeeps.standsFor_keptType hpromoted).reportsInteger_iff hpromoted,
      (hkeeps.standsFor_keptType hpromoted).reportsInteger_iff hpromoted]
    exact and_and_left.symm

end Observation

end ProbeWeaver
