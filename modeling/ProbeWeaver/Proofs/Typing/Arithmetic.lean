import Mathlib.Data.Fintype.Defs
import Mathlib.Data.Multiset.AddSub
import Mathlib.Order.Bounds.Basic
import Mathlib.Order.Lattice
import ProbeWeaver.Proofs.Typing.Conversions
import ProbeWeaver.Proofs.Typing.Links

/-!
# Proofs/Typing/Arithmetic — the type of an arithmetic expression

The types that arithmetic works in are ordered by conversion, and any two of them have a least upper
bound: the one that the other converts to, or `unsigned long long` for `unsigned long` and
`long long`.  The common type of two operands is that bound (`NameTable.common?_name`), so an
expression over many of them has the least upper bound of all its leaves for a type, however they are
ordered and grouped (`NameTable.exists_isLUB_of_computes`).
-/

namespace ProbeWeaver

/-! ## The conversion order -/

/-- **The types that arithmetic works in**, after promotion. -/
inductive Arithmetic where
  | int | unsignedInt | long | unsignedLong | longLong | unsignedLongLong
  | float | double | longDouble
  deriving DecidableEq

namespace Arithmetic

/-- The name of the type. -/
def name : Arithmetic → String
  | int => "int"
  | unsignedInt => "unsigned int"
  | long => "long"
  | unsignedLong => "unsigned long"
  | longLong => "long long"
  | unsignedLongLong => "unsigned long long"
  | float => "float"
  | double => "double"
  | longDouble => "long double"

instance : Fintype Arithmetic where
  elems := ⟨[int, unsignedInt, long, unsignedLong, longLong, unsignedLongLong, float, double,
    longDouble], by decide⟩
  complete a := by cases a <;> decide

/-- Rank, signedness and bytes of an integer type. -/
def integer? : Arithmetic → Option (Nat × Bool × Nat)
  | int => some (1, true, 4)
  | unsignedInt => some (1, false, 4)
  | long => some (2, true, 8)
  | unsignedLong => some (2, false, 8)
  | longLong => some (3, true, 8)
  | unsignedLongLong => some (3, false, 8)
  | float | double | longDouble => none

/-- The place of a type among the floating ones. -/
def precision : Arithmetic → Nat
  | float => 1
  | double => 2
  | longDouble => 3
  | _ => 0

/-- **Conversion**: an integer type converts to one of no lower rank, but an unsigned type to a signed
one only if that has more bytes; every integer type converts to the floating ones, and these to more
precise ones. -/
def convertsTo (a b : Arithmetic) : Bool :=
  match a.integer?, b.integer? with
  | some (rank, isSigned, bytes), some (rank', isSigned', bytes') =>
    decide (rank ≤ rank') && (isSigned || !isSigned' || decide (bytes < bytes'))
  | none, some _ => false
  | _, none => decide (a.precision ≤ b.precision)

/-- The type that two types have in common: one of them, unless neither converts to the other. -/
def join (a b : Arithmetic) : Arithmetic :=
  if a.convertsTo b then b else if b.convertsTo a then a else unsignedLongLong

/-- **The conversion order** has least upper bounds. -/
instance : SemilatticeSup Arithmetic where
  le a b := a.convertsTo b = true
  le_refl := by decide
  le_trans := by decide +kernel
  le_antisymm := by decide +kernel
  sup := join
  le_sup_left := by decide +kernel
  le_sup_right := by decide +kernel
  sup_le := by decide +kernel

example : unsignedLong ⊔ longLong = unsignedLongLong := by decide

example : ∀ a b : Arithmetic, a.integer?.isSome → b.integer? = none → a ⊔ b = b := by decide +kernel

/-- **Promotion**: what a builtin type or an enumeration is in arithmetic. -/
def ofName? : String → Option Arithmetic
  | "_Bool" | "bool" | "char" | "signed char" | "unsigned char" | "short" | "unsigned short"
  | "int" => some int
  | "unsigned int" => some unsignedInt
  | "long" => some long
  | "unsigned long" => some unsignedLong
  | "long long" => some longLong
  | "unsigned long long" => some unsignedLongLong
  | "float" => some float
  | "double" => some double
  | "long double" => some longDouble
  | name => if isEnumName name then some int else none

theorem ofName?_name : ∀ a : Arithmetic, ofName? a.name = some a := by decide +kernel

/-- **Every builtin type and every enumeration** is something in arithmetic, and nothing else is. -/
theorem isSome_ofName? (name : String) : (ofName? name).isSome = isArithmeticName name := by
  rw [ofName?.eq_def]
  split
  case h_17 =>
    have hstanding : integerStanding? name = none := by
      rw [integerStanding?.eq_def]
      split <;> simp_all
    have hfloating : isFloatingName name = false := by simp_all [isFloatingName]
    rw [isArithmeticName, hstanding, hfloating]
    cases isEnumName name <;> rfl
  all_goals rfl

end Arithmetic

namespace NameTable

variable {names : NameTable} {t : CType} {a b : Arithmetic} {name op source : String}
  {n inner left right : Node} {leaves : Multiset CType}

/-! ## Promotion -/

/-- **In arithmetic, a type is** what stands behind its name. -/
def Promotes (names : NameTable) (t : CType) (a : Arithmetic) : Prop :=
  ∃ name, (names.resolve t).name? = some name ∧ Arithmetic.ofName? name = some a

theorem Promotes.unique (ha : names.Promotes t a) (hb : names.Promotes t b) : a = b := by
  obtain ⟨name, hname, ha⟩ := ha
  obtain ⟨other, hother, hb⟩ := hb
  obtain rfl := Option.some.inj (hname.symm.trans hother)
  exact Option.some.inj (ha.symm.trans hb)

/-- What is something in arithmetic resolves to a name with nothing behind it. -/
theorem Promotes.exists_resolve_eq (h : names.KeepsBuiltins) (ht : names.Promotes t a) :
    ∃ name q, names.resolve t = .named name q ∧ Arithmetic.ofName? name = some a ∧
      names.IsSettled (names.resolve t) := by
  obtain ⟨name, hname, ha⟩ := ht
  obtain ⟨q, hq⟩ := CType.exists_named_of_name? hname
  refine ⟨name, q, hq, ha, hq ▸ isSettled_named_iff.mpr (h.target?_eq_none ?_)⟩
  rw [← Arithmetic.isSome_ofName?, ha, Option.isSome_some]

/-- It is the same thing after it was resolved. -/
theorem Promotes.resolve (h : names.KeepsBuiltins) (ht : names.Promotes t a) :
    names.Promotes (names.resolve t) a := by
  obtain ⟨name, q, hq, ha, hsettled⟩ := ht.exists_resolve_eq h
  exact ⟨name, by rw [NameTable.resolve, hsettled.resolveUpTo_eq, hq]; rfl, ha⟩

/-- The types that arithmetic works in stand for themselves. -/
theorem KeepsBuiltins.promotes_plain (h : names.KeepsBuiltins) (a : Arithmetic) :
    names.Promotes (.plain a.name) a := by
  have hsettled : names.IsSettled (.plain a.name) := by
    refine isSettled_named_iff.mpr (h.target?_eq_none ?_)
    rw [← Arithmetic.isSome_ofName?, Arithmetic.ofName?_name, Option.isSome_some]
  exact ⟨a.name, by rw [NameTable.resolve, hsettled.resolveUpTo_eq]; rfl, Arithmetic.ofName?_name a⟩

/-- **Promotion gives** the unqualified type. -/
theorem Promotes.promoted_eq (ht : names.Promotes t a) :
    names.promoted t = some (.plain a.name) := by
  obtain ⟨name, hname, ha⟩ := ht
  obtain ⟨q, hq⟩ := CType.exists_named_of_name? hname
  rw [promoted, hq]
  rw [Arithmetic.ofName?.eq_def] at ha
  split at ha
  case h_17 =>
    split at ha
    · next henum =>
      obtain rfl := Option.some.inj ha
      have hfloating : isFloatingName name = false := by simp_all [isFloatingName]
      change (if isFloatingName name = true then some (CType.plain name)
        else if isEnumName name = true then some CType.int else _) = _
      rw [hfloating, henum]
      rfl
    · contradiction
  all_goals
    obtain rfl := Option.some.inj ha
    rfl

/-! ## The common type -/

/-- **The common type is the least upper bound.** -/
theorem common?_name : ∀ a b : Arithmetic,
    common? (.plain a.name) (.plain b.name) = some (.plain (a ⊔ b).name) := by
  decide +kernel

/-- The operators that work on two numbers of a common type. -/
def arithmeticOperators : List String := ["+", "-", "*", "/", "%", "&", "|", "^"]

/-- No truth value and no shift comes out of them. -/
theorem not_truth_or_shift : ∀ op ∈ arithmeticOperators,
    isTruthOperator op = false ∧ isShift op = false := by
  decide +kernel

/-- **The type of an arithmetic operation** is the least upper bound of its operands. -/
theorem Promotes.typeOfBinary_eq {l r : CType} (h : names.KeepsBuiltins)
    (hop : op ∈ arithmeticOperators) (hl : names.Promotes l a) (hr : names.Promotes r b) :
    names.typeOfBinary op (some l) (some r) = some (.plain (a ⊔ b).name) := by
  obtain ⟨htruth, hshift⟩ := not_truth_or_shift op hop
  have hconversion : names.usualConversion (names.resolve l) (names.resolve r) =
      some (.plain (a ⊔ b).name) := by
    rw [usualConversion, (hl.resolve h).promoted_eq, (hr.resolve h).promoted_eq]
    exact common?_name a b
  obtain ⟨lname, lq, hleq, -⟩ := hl.exists_resolve_eq h
  obtain ⟨rname, rq, hreq, -⟩ := hr.exists_resolve_eq h
  rw [hleq, hreq] at hconversion
  simp only [typeOfBinary, htruth, hshift, hleq, hreq, CType.decayed, sumType, CType.isPointer,
    Bool.false_eq_true, if_false, Option.bind_eq_bind, Option.bind_some, hconversion, ite_self]

/-! ## Expressions -/

/-- The type of an expression in parentheses. -/
theorem typeOf_parenthesized (hkind : n.kind = .parenthesizedExpression)
    (hinner : n.firstNamed? = some inner) : names.typeOf source n = names.typeOf source inner := by
  rw [typeOf, hkind]
  simp [hinner]

/-- **An expression computes** with leaves of these types: it joins them with arithmetic operators
and parentheses, and each of the leaves has a type that stands for numbers. -/
inductive Computes (names : NameTable) (source : String) : Node → Multiset CType → Prop where
  | leaf {n : Node} {t : CType} {name : String} (htype : names.typeOf source n = some t)
      (hname : (names.resolve t).name? = some name) (harithmetic : isArithmeticName name = true) :
      Computes names source n {t}
  | parentheses {n inner : Node} {leaves : Multiset CType}
      (hkind : n.kind = .parenthesizedExpression) (hinner : n.firstNamed? = some inner)
      (h : Computes names source inner leaves) : Computes names source n leaves
  | operation {n left right : Node} {op : String} {lefts rights : Multiset CType}
      (hkind : n.kind = .binaryExpression) (hop : n.operator? source = some op)
      (harithmetic : op ∈ arithmeticOperators) (hleft : n.field? .left = some left)
      (hright : n.field? .right = some right) (hl : Computes names source left lefts)
      (hr : Computes names source right rights) : Computes names source n (lefts + rights)

/-- What the leaves are in arithmetic. -/
def promotions (names : NameTable) (leaves : Multiset CType) : Set Arithmetic :=
  {a | ∃ t ∈ leaves, names.Promotes t a}

theorem promotions_singleton (ht : names.Promotes t a) : names.promotions {t} = {a} := by
  ext b
  constructor
  · rintro ⟨x, hx, hb⟩
    obtain rfl := Multiset.mem_singleton.mp hx
    exact hb.unique ht
  · rintro rfl
    exact ⟨t, Multiset.mem_singleton_self t, ht⟩

theorem promotions_add (lefts rights : Multiset CType) :
    names.promotions (lefts + rights) = names.promotions lefts ∪ names.promotions rights := by
  ext b
  simp only [promotions, Multiset.mem_add, Set.mem_ofPred_eq, Set.mem_union, or_and_right, exists_or]

/-- **What an expression is in arithmetic**: the least upper bound of its leaves, and without
qualifiers as soon as there are two of them. -/
theorem Computes.exists_isLUB (h : names.KeepsBuiltins) (hn : names.Computes source n leaves) :
    ∃ t a, names.typeOf source n = some t ∧ names.Promotes t a ∧ IsLUB (names.promotions leaves) a ∧
      (2 ≤ leaves.card → t = .plain a.name) := by
  induction hn with
  | leaf htype hname harithmetic =>
    rw [← Arithmetic.isSome_ofName?] at harithmetic
    obtain ⟨a, ha⟩ := Option.isSome_iff_exists.mp harithmetic
    have ht : names.Promotes _ a := ⟨_, hname, ha⟩
    exact ⟨_, a, htype, ht, promotions_singleton ht ▸ isLUB_singleton, fun htwo => by simp at htwo⟩
  | parentheses hkind hinner _ ih =>
    obtain ⟨t, a, htype, hrest⟩ := ih
    exact ⟨t, a, (typeOf_parenthesized hkind hinner).trans htype, hrest⟩
  | operation hkind hop harithmetic hleft hright _ _ ihl ihr =>
    obtain ⟨l, a, hltype, hl, hla, -⟩ := ihl
    obtain ⟨r, b, hrtype, hr, hrb, -⟩ := ihr
    refine ⟨_, a ⊔ b, ?_, h.promotes_plain (a ⊔ b), promotions_add _ _ ▸ hla.union hrb, fun _ => rfl⟩
    rw [typeOf_binary hkind hop hleft hright, hltype, hrtype]
    exact hl.typeOfBinary_eq h harithmetic hr

/-- **The type of an arithmetic expression** with two leaves or more is the least upper bound of what
they are in arithmetic, without qualifiers; every expression with these leaves has the type, in
whatever order and grouping it joins them. -/
theorem exists_isLUB_of_computes (h : names.KeepsBuiltins) (hn : names.Computes source n leaves)
    (htwo : 2 ≤ leaves.card) :
    ∃ a, names.typeOf source n = some (.plain a.name) ∧ IsLUB (names.promotions leaves) a ∧
      ∀ source' n', names.Computes source' n' leaves →
        names.typeOf source' n' = names.typeOf source n := by
  obtain ⟨t, a, htype, -, ha, hplain⟩ := hn.exists_isLUB h
  obtain rfl := hplain htwo
  refine ⟨a, htype, ha, fun source' n' hn' => ?_⟩
  obtain ⟨t', a', htype', -, ha', hplain'⟩ := hn'.exists_isLUB h
  obtain rfl := hplain' htwo
  rw [htype', htype, ha'.unique ha]

/-- The text of a product of a `long long` and a `char`, added to a word. -/
def sumText : String := "(word)1 + (2LL * 'c')"

/-- The product. -/
def productTree : Tree :=
  .node .binaryExpression none ⟨11, 20⟩ false
    [.node .numberLiteral (some .left) ⟨11, 14⟩ false [],
      .node (.token "*") (some .operator) ⟨15, 16⟩ false [],
      .node .charLiteral (some .right) ⟨17, 20⟩ false []]

/-- The product in its parentheses. -/
def groupTree : Tree :=
  .node .parenthesizedExpression (some .right) ⟨10, 21⟩ false
    [.node (.token "(") none ⟨10, 11⟩ false [], productTree,
      .node (.token ")") none ⟨20, 21⟩ false []]

/-- The sum. -/
def sumTree : Tree :=
  .node .binaryExpression none ⟨0, 21⟩ false
    [.node .castExpression (some .left) ⟨0, 7⟩ false
      [.node (.token "(") none ⟨0, 1⟩ false [],
        .node (.other "type_descriptor") (some .type) ⟨1, 5⟩ false
          [.node .typeIdentifier (some .type) ⟨1, 5⟩ false []],
        .node (.token ")") none ⟨5, 6⟩ false [],
        .node .numberLiteral (some .value) ⟨6, 7⟩ false []],
      .node (.token "+") (some .operator) ⟨8, 9⟩ false [], groupTree]

/-- The leaves of the sum, by their types. -/
theorem computes_sum : wordNames.Computes sumText (.root sumTree)
    ({.plain "word"} + ({.plain "long long"} + {.int})) := by
  have hplus : (Node.root sumTree).operator? sumText = some "+" := by decide +kernel
  have htimes : (((Node.root sumTree).child 2 groupTree).child 1 productTree).operator? sumText =
      some "*" := by decide +kernel
  have hleaf {n : Node} {t : CType} (name : String) (htype : wordNames.typeOf sumText n = some t)
      (hname : (wordNames.resolve t).name? = some name) (harithmetic : isArithmeticName name = true) :
      wordNames.Computes sumText n {t} := .leaf htype hname harithmetic
  refine .operation rfl hplus (by decide) rfl rfl
    (hleaf "unsigned long" (by decide +kernel) (by decide +kernel) (by decide +kernel)) ?_
  refine .parentheses rfl rfl (.operation rfl htimes (by decide) rfl rfl
    (hleaf "long long" (by decide +kernel) (by decide +kernel) (by decide +kernel))
    (hleaf "int" (by decide +kernel) (by decide +kernel) (by decide +kernel)))

/-- A word and a `long long` have neither of the two types in common, so the sum is an
`unsigned long long`. -/
theorem typeOf_sum : wordNames.KeepsBuiltins ∧
    wordNames.typeOf sumText (.root sumTree) = some (.plain "unsigned long long") ∧
      IsLUB (wordNames.promotions ({.plain "word"} + ({.plain "long long"} + {.int})))
        .unsignedLongLong := by
  have hkeeps : wordNames.KeepsBuiltins := by decide +kernel
  obtain ⟨a, htype, ha, -⟩ := exists_isLUB_of_computes hkeeps computes_sum (by decide)
  have hbound : IsLUB (wordNames.promotions ({.plain "word"} + ({.plain "long long"} + {.int})))
      .unsignedLongLong := by
    have hword : wordNames.Promotes (.plain "word") .unsignedLong :=
      ⟨"unsigned long", by decide +kernel, rfl⟩
    have hlong : wordNames.Promotes (.plain "long long") .longLong := hkeeps.promotes_plain .longLong
    have hint : wordNames.Promotes .int .int := hkeeps.promotes_plain .int
    rw [promotions_add, promotions_add, promotions_singleton hword, promotions_singleton hlong,
      promotions_singleton hint]
    exact isLUB_singleton.union (isLUB_singleton.union isLUB_singleton)
  obtain rfl := ha.unique hbound
  exact ⟨hkeeps, htype, hbound⟩

end NameTable

end ProbeWeaver
