import ProbeWeaver.Text.Search

/-!
# CType/Basic — C types and their spelling

`CType` is the type of a declaration: named types, pointers, arrays and functions.  `CType.render`
spells a type the way compilers print it (`int *`, `int [3]`, `int (*)[4]`), building the
declarator from the inside out; the spelling ends up in markers.
-/

namespace ProbeWeaver

/-- `const` and `volatile`. -/
structure Qualifiers where
  isConst : Bool := false
  isVolatile : Bool := false
  deriving DecidableEq, Repr

namespace Qualifiers

/-- No qualifier. -/
def none : Qualifiers := ⟨false, false⟩

/-- The qualifiers of either. -/
def merge (a b : Qualifiers) : Qualifiers :=
  ⟨a.isConst || b.isConst, a.isVolatile || b.isVolatile⟩

/-- The spelling before a type name, a blank after each word. -/
def leading (q : Qualifiers) : String :=
  (if q.isConst then "const " else "") ++ (if q.isVolatile then "volatile " else "")

/-- The spelling after a star. -/
def trailing : Qualifiers → String
  | ⟨true, true⟩ => "const volatile"
  | ⟨true, false⟩ => "const"
  | ⟨false, true⟩ => "volatile"
  | ⟨false, false⟩ => ""

end Qualifiers

/-- **A C type.**  The size of an array is the text in its brackets. -/
inductive CType where
  | named (name : String) (qualifiers : Qualifiers)
  | pointer (pointee : CType) (qualifiers : Qualifiers)
  | array (element : CType) (size : Option String)
  | function (result : CType) (params : List CType)
  deriving Repr

namespace CType

/-- An unqualified named type. -/
def plain (name : String) : CType := .named name .none

/-- The type `int`. -/
def int : CType := plain "int"

/-- An unqualified pointer. -/
def pointerTo (pointee : CType) : CType := .pointer pointee .none

mutual

/-- Types are compared level by level. -/
def beq : CType → CType → Bool
  | .named a p, .named b q => a == b && p == q
  | .pointer a p, .pointer b q => beq a b && p == q
  | .array a m, .array b n => beq a b && m == n
  | .function a ps, .function b qs => beq a b && beqAll ps qs
  | _, _ => false

/-- Lists of types are compared item by item. -/
def beqAll : List CType → List CType → Bool
  | [], [] => true
  | a :: as, b :: bs => beq a b && beqAll as bs
  | _, _ => false

end

mutual

theorem eq_of_beq : ∀ {a b : CType}, beq a b = true → a = b
  | .named _ _, b, h => by cases b <;> simp_all [beq]
  | .pointer a _, b, h => by
    cases b <;> simp_all [beq]
    exact eq_of_beq h.1
  | .array a _, b, h => by
    cases b <;> simp_all [beq]
    exact eq_of_beq h.1
  | .function a ps, b, h => by
    cases b <;> simp_all [beq]
    exact ⟨eq_of_beq h.1, eq_of_beqAll h.2⟩

theorem eq_of_beqAll : ∀ {as bs : List CType}, beqAll as bs = true → as = bs
  | [], bs, h => by cases bs <;> simp_all [beqAll]
  | a :: as, bs, h => by
    cases bs <;> simp_all [beqAll]
    exact ⟨eq_of_beq h.1, eq_of_beqAll h.2⟩

end

mutual

theorem beq_self : ∀ a : CType, beq a a = true
  | .named _ _ => by simp [beq]
  | .pointer a _ => by simp [beq, beq_self a]
  | .array a _ => by simp [beq, beq_self a]
  | .function a ps => by simp [beq, beq_self a, beqAll_self ps]

theorem beqAll_self : ∀ as : List CType, beqAll as as = true
  | [] => rfl
  | a :: as => by simp [beqAll, beq_self a, beqAll_self as]

end

instance : DecidableEq CType := fun a b =>
  if h : beq a b = true then isTrue (eq_of_beq h)
  else isFalse fun e => h (e ▸ beq_self a)

/-- A pointer. -/
def isPointer : CType → Bool
  | .pointer _ _ => true
  | _ => false

/-- An array. -/
def isArray : CType → Bool
  | .array _ _ => true
  | _ => false

/-- A function. -/
def isFunction : CType → Bool
  | .function _ _ => true
  | _ => false

/-- A pointer or an array. -/
def isPointerLike (t : CType) : Bool := t.isPointer || t.isArray

/-- The name of a named type. -/
def name? : CType → Option String
  | .named name _ => some name
  | _ => Option.none

/-- The pointee of a pointer, the element of an array. -/
def element? : CType → Option CType
  | .pointer pointee _ => some pointee
  | .array element _ => some element
  | _ => Option.none

/-- Number of array dimensions. -/
def arrayRank : CType → Nat
  | .array element _ => element.arrayRank + 1
  | _ => 0

/-- The element below every array dimension. -/
def innermost : CType → CType
  | .array element _ => element.innermost
  | t => t

/-- **Decay**: an array becomes a pointer to its element, a function a pointer to itself. -/
def decayed : CType → CType
  | .array element _ => pointerTo element
  | .function result params => pointerTo (.function result params)
  | t => t

/-- The outermost qualifiers; an array has those of its element. -/
def qualifiers : CType → Qualifiers
  | .named _ q => q
  | .pointer _ q => q
  | .array element _ => element.qualifiers
  | .function _ _ => .none

/-- Adds qualifiers at the outermost level; an array passes them to its element. -/
def qualified : CType → Qualifiers → CType
  | .named name q, extra => .named name (q.merge extra)
  | .pointer pointee q, extra => .pointer pointee (q.merge extra)
  | .array element size, extra => .array (element.qualified extra) size
  | .function result params, _ => .function result params

/-- Drops the outermost qualifiers. -/
def unqualified : CType → CType
  | .named name _ => plain name
  | .pointer pointee _ => pointerTo pointee
  | .array element size => .array element.unqualified size
  | .function result params => .function result params

mutual

/-- Drops `volatile` at every level. -/
def withoutVolatile : CType → CType
  | .named name q => .named name ⟨q.isConst, false⟩
  | .pointer pointee q => .pointer pointee.withoutVolatile ⟨q.isConst, false⟩
  | .array element size => .array element.withoutVolatile size
  | .function result params => .function result.withoutVolatile (allWithoutVolatile params)

/-- Drops `volatile` from each type. -/
def allWithoutVolatile : List CType → List CType
  | [] => []
  | t :: ts => t.withoutVolatile :: allWithoutVolatile ts

end

/-! ## Spelling -/

/-- A pointer to this type wraps its declarator in parentheses. -/
def bindsTighter : CType → Bool
  | .array _ _ | .function _ _ => true
  | _ => false

/-- The declarator of a pointer around an inner one. -/
def starDeclarator (q : Qualifiers) (inner : String) : String :=
  "*" ++ q.trailing ++ (if inner.isEmpty || q.trailing.isEmpty then "" else " ") ++ inner

/-- The declarator in parentheses where a pointer is taken to an array or a function. -/
def starAround (pointee : CType) (q : Qualifiers) (inner : String) : String :=
  if pointee.bindsTighter then "(" ++ starDeclarator q inner ++ ")" else starDeclarator q inner

mutual

/-- The spelling of a type around a declarator. -/
def spellAround : CType → String → String
  | .named name q, inner =>
    q.leading ++ name ++ (if inner.isEmpty then "" else " " ++ inner)
  | .pointer pointee q, inner => spellAround pointee (starAround pointee q inner)
  | .array element size, inner => spellAround element (inner ++ "[" ++ size.getD "" ++ "]")
  | .function result params, inner =>
    let list := if params.isEmpty then "void" else ", ".intercalate (spellEach params)
    spellAround result (inner ++ "(" ++ list ++ ")")

/-- The spelling of each type by itself. -/
def spellEach : List CType → List String
  | [] => []
  | t :: ts => spellAround t "" :: spellEach ts

end

/-- **The spelling of a type.** -/
def render (t : CType) : String := spellAround t ""

/-- `const` stands in the spelling. -/
def spellsConst (t : CType) : Bool := Text.contains t.render "const"

/-- `union` stands in the spelling. -/
def spellsUnion (t : CType) : Bool := Text.contains t.render "union"

/-- `struct` stands in the spelling. -/
def spellsStruct (t : CType) : Bool := Text.contains t.render "struct"

end CType

end ProbeWeaver
