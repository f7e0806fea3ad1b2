import Mathlib.Algebra.Group.Nat.Defs
import Mathlib.Data.List.Basic
import ProbeWeaver.CType.Integer
import ProbeWeaver.Typing.Literal

/-!
# Proofs/Typing/Literals — the types of integer literals

An `IntegerLiteral` is what C calls an integer constant: digits in one of three radixes and a suffix.
C gives it the first type of a list that holds its value (`IntegerLiteral.standard?`).  The type that
is found for a literal goes by the suffix, and without one by whether the value fits into an `int`,
with octal digits read as decimal ones; `typeOfNumber_eq_iff` says for which literals that is the
type C gives them.
-/

namespace ProbeWeaver.Literal

/-! ## Integer literals -/

/-- **The notations for integers.** -/
inductive Radix where
  | decimal | octal | hexadecimal
  deriving DecidableEq, Repr

namespace Radix

def base : Radix → Nat
  | decimal => 10
  | octal => 8
  | hexadecimal => 16

/-- The characters of a number. -/
def digits : Radix → List Char
  | decimal => "0123456789".toList
  | octal => "01234567".toList
  | hexadecimal => "0123456789abcdefABCDEF".toList

/-- What stands before a number. -/
def leads : Radix → List (List Char)
  | decimal | octal => [[]]
  | hexadecimal => [['0', 'x'], ['0', 'X']]

/-- There are digits; decimal ones do not start with a zero, and octal ones do. -/
def starts : Radix → List Char → Bool
  | _, [] => false
  | decimal, c :: _ => c != '0'
  | octal, c :: _ => c == '0'
  | hexadecimal, _ :: _ => true

/-- The base that digits of the notation are read in. -/
def readingBase : Radix → Nat
  | decimal | octal => 10
  | hexadecimal => 16

end Radix

/-- The suffixes in lower case. -/
def suffixes : List (List Char) :=
  [[], ['u'], ['l'], ['u', 'l'], ['l', 'u'], ['l', 'l'], ['u', 'l', 'l'], ['l', 'l', 'u']]

/-- **An integer literal.** -/
structure IntegerLiteral where
  radix : Radix
  lead : List Char
  digits : List Char
  suffix : List Char
  lead_mem : lead ∈ radix.leads
  digits_subset : digits ⊆ radix.digits
  starts : radix.starts digits = true
  suffix_mem : suffix.map Char.toLower ∈ suffixes

/-- What a digit stands for, of either case. -/
def digitValue (c : Char) : Nat := "0123456789abcdef".toList.idxOf c.toLower

/-- What digits stand for in a base, after a value that was read. -/
def valueIn (base : Nat) (digits : List Char) (start : Nat) : Nat :=
  digits.foldl (fun value c => value * base + digitValue c) start

namespace IntegerLiteral

variable (l : IntegerLiteral)

/-- How the literal is written. -/
def text : String := String.ofList (l.lead ++ l.digits ++ l.suffix)

/-- **The value of the literal.** -/
def value : Nat := valueIn l.radix.base l.digits 0

/-- The value that is read off the literal. -/
def valueRead : Nat := valueIn l.radix.readingBase l.digits 0

def isUnsigned : Bool := (l.suffix.map Char.toLower).contains 'u'

def longs : Nat := (l.suffix.map Char.toLower).count 'l'

end IntegerLiteral

/-! ## The types of the standard -/

/-- The first number that a type does not hold. -/
def limit (name : String) : Nat :=
  match integerStanding? name with
  | some standing => 2 ^ (if standing.isSigned then 8 * rankSize standing.rank - 1
      else 8 * rankSize standing.rank)
  | none => 0

/-- **The types that a literal may have**, the first that holds its value before the others: a suffix
excludes the smaller ones and the signed ones, and a decimal literal without a `u` is signed. -/
def candidates (isDecimal isUnsigned : Bool) (longs : Nat) : List String :=
  (["int", "long", "long long"].drop longs).flatMap fun name =>
    (if isUnsigned then [] else [name]) ++
      (if isUnsigned || !isDecimal then ["unsigned " ++ name] else [])

/-- **The type that C gives the literal**, if some type holds its value. -/
def IntegerLiteral.standard? (l : IntegerLiteral) : Option String :=
  (candidates (l.radix == .decimal) l.isUnsigned l.longs).find? fun name => l.value < limit name

/-! ## Reading the parts -/

/-- The digits are read for what they stand for. -/
theorem digit?_readingBase : ∀ r : Radix, ∀ c ∈ r.digits,
    Text.digit? r.readingBase c.toLower = some (digitValue c)
  | .decimal | .octal | .hexadecimal => List.forall_iff_forall_mem.mp (by decide +kernel)

/-- The marks of a suffix, of a notation, of a sign and of a floating number. -/
def literalMarks : List Char := ['u', 'l', 'x', '+', '.', 'p']

/-- **No digit is mistaken** for a mark, and only in hexadecimal notation for an exponent. -/
theorem digits_unmarked : ∀ r : Radix, ∀ c ∈ r.digits,
    c.toLower ∉ literalMarks ∧ (c.toLower = 'e' → r = .hexadecimal)
  | .decimal | .octal | .hexadecimal => List.forall_iff_forall_mem.mp (by decide +kernel)

theorem toLower_ne {r : Radix} {c mark : Char} (hc : c ∈ r.digits) (hmark : mark ∈ literalMarks) :
    c.toLower ≠ mark := fun h => (digits_unmarked r c hc).1 (h ▸ hmark)

theorem valueFrom?_digits_map (r : Radix) : ∀ {cs : List Char} (start : Nat),
    cs ⊆ r.digits → Text.valueFrom? r.readingBase start (cs.map Char.toLower) =
      some (valueIn r.readingBase cs start)
  | [], _, _ => rfl
  | c :: cs, start, h => by
      rw [List.cons_subset] at h
      rw [List.map_cons, Text.valueFrom?, digit?_readingBase r c h.1]
      exact valueFrom?_digits_map r _ h.2

/-- Digits are read as a number, if it is below the limit. -/
theorem unsigned?_digits (r : Radix) {cs : List Char} (limit : Nat) (hne : cs ≠ [])
    (h : cs ⊆ r.digits) : Text.unsigned? r.readingBase limit (cs.map Char.toLower) =
      (some (valueIn r.readingBase cs 0)).filter (· < limit) := by
  have hplus : ∀ rest, cs.map Char.toLower ≠ '+' :: rest := by
    intro rest heq
    obtain ⟨c, hc, hlower⟩ := List.mem_map.mp (heq ▸ List.mem_cons_self)
    exact toLower_ne (h hc) (by decide) hlower
  have hempty : (cs.map Char.toLower).isEmpty = false := by
    rwa [List.isEmpty_map, List.isEmpty_eq_false_iff]
  rw [Text.unsigned?.eq_def]
  split
  · next rest heq => exact absurd heq (hplus rest)
  · dsimp only
    rw [hempty, if_neg Bool.false_ne_true, valueFrom?_digits_map r 0 h]

namespace IntegerLiteral

variable (l : IntegerLiteral)

/-- The literal in lower case. -/
theorem map_toLower_text : l.text.toList.map Char.toLower =
    l.lead.map Char.toLower ++ (l.digits.map Char.toLower ++ l.suffix.map Char.toLower) := by
  rw [text, String.toList_ofList, List.map_append, List.map_append, List.append_assoc]

theorem digits_ne_nil : l.digits ≠ [] := fun h => by
  have hstarts := l.starts
  rw [h] at hstarts
  cases hradix : l.radix <;> rw [hradix] at hstarts <;> exact nomatch hstarts

theorem mem_suffix {c : Char} (h : c ∈ l.suffix.map Char.toLower) : c = 'u' ∨ c = 'l' :=
  List.mem_pair.mp <| (by decide : ∀ s ∈ suffixes, s ⊆ ['u', 'l']) _ l.suffix_mem h

/-- The characters of a literal in lower case. -/
theorem mem_lower {c : Char} (h : c ∈ l.text.toList.map Char.toLower) :
    c = '0' ∨ c = 'x' ∨ (∃ d ∈ l.radix.digits, d.toLower = c) ∨ c = 'u' ∨ c = 'l' := by
  rw [map_toLower_text, List.mem_append, List.mem_append] at h
  rcases h with h | h | h
  · have hlead : ∀ r : Radix, ∀ lead ∈ r.leads, lead.map Char.toLower ⊆ ['0', 'x'] := by
      rintro (_ | _ | _) <;> decide
    exact (List.mem_pair.mp (hlead _ _ l.lead_mem h)).imp_right .inl
  · obtain ⟨d, hd, rfl⟩ := List.mem_map.mp h
    exact .inr (.inr (.inl ⟨d, l.digits_subset hd, rfl⟩))
  · exact .inr (.inr (.inr (l.mem_suffix h)))

/-- **Literals in hexadecimal notation** are told from the others, which have no `x` anywhere. -/
theorem isPrefixOf_lower :
    ['0', 'x'].isPrefixOf (l.text.toList.map Char.toLower) = (l.radix == .hexadecimal) := by
  have hx : 'x' ∉ l.digits.map Char.toLower ++ l.suffix.map Char.toLower := by
    intro h
    rcases List.mem_append.mp h with h | h
    · obtain ⟨d, hd, hlower⟩ := List.mem_map.mp h
      exact toLower_ne (l.digits_subset hd) (by decide) hlower
    · exact absurd (l.mem_suffix h) (by decide)
  have hlead := l.lead_mem
  rw [map_toLower_text]
  cases hradix : l.radix <;> rw [hradix] at hlead
  case hexadecimal =>
    rcases List.mem_cons.mp hlead with h | h
    · rw [h]; rfl
    · rw [List.mem_singleton.mp h]; rfl
  all_goals
    rw [List.mem_singleton.mp hlead]
    exact Bool.eq_false_iff.mpr fun h =>
      hx ((List.isPrefixOf_iff_prefix.mp h).subset (by decide : 'x' ∈ ['0', 'x']))

/-- **No literal is taken for a floating number.** -/
theorem not_floating :
    ((l.text.toList.map Char.toLower).contains '.' ||
      (!(l.radix == .hexadecimal) && (l.text.toList.map Char.toLower).contains 'e') ||
        ((l.radix == .hexadecimal) && (l.text.toList.map Char.toLower).contains 'p')) = false := by
  have hlower {c : Char} (hc : c ∈ ['.', 'e', 'p']) (hdigits : ∀ d ∈ l.radix.digits, d.toLower ≠ c) :
      (l.text.toList.map Char.toLower).contains c = false := by
    rw [List.contains_eq_mem, decide_eq_false_iff_not]
    intro h
    rcases l.mem_lower h with rfl | rfl | ⟨d, hd, rfl⟩ | rfl | rfl
    · exact absurd hc (by decide)
    · exact absurd hc (by decide)
    · exact hdigits d hd rfl
    · exact absurd hc (by decide)
    · exact absurd hc (by decide)
  have hmark {c : Char} (hc : c ∈ literalMarks) : ∀ d ∈ l.radix.digits, d.toLower ≠ c :=
    fun d hd => toLower_ne hd hc
  rw [hlower (by decide) (hmark (by decide)), hlower (c := 'p') (by decide) (hmark (by decide)),
    Bool.false_or, Bool.and_false, Bool.or_false]
  cases hradix : l.radix == .hexadecimal
  · refine hlower (by decide) fun d hd he => ?_
    rw [(digits_unmarked l.radix d hd).2 he] at hradix
    exact absurd hradix (by decide)
  · rfl

/-- **The suffix is read from the end**, up to the last digit. -/
theorem takeWhile_reverse_lower :
    (l.text.toList.map Char.toLower).reverse.takeWhile (fun c => c == 'u' || c == 'l') =
      (l.suffix.map Char.toLower).reverse := by
  have hreverse : (l.digits.map Char.toLower).reverse ≠ [] := by
    rw [ne_eq, List.reverse_eq_nil_iff, List.map_eq_nil_iff]
    exact l.digits_ne_nil
  obtain ⟨last, before, hlast⟩ := List.exists_cons_of_ne_nil hreverse
  obtain ⟨d, hd, rfl⟩ := List.mem_map.mp (List.mem_reverse.mp (hlast ▸ List.mem_cons_self))
  have hmark {mark : Char} (h : mark ∈ literalMarks) : d.toLower ≠ mark :=
    toLower_ne (l.digits_subset hd) h
  rw [map_toLower_text, List.reverse_append, List.reverse_append, List.append_assoc,
    List.takeWhile_append_of_pos, hlast, List.cons_append, List.takeWhile_cons_of_neg,
    List.append_nil]
  · simp [hmark (by decide : 'u' ∈ literalMarks), hmark (by decide : 'l' ∈ literalMarks)]
  · intro c hc
    rcases l.mem_suffix (List.mem_reverse.mp hc) with rfl | rfl <;> rfl

/-- **The type by value**, of a literal without a suffix. -/
theorem plainValue?_lower (h : l.suffix = []) :
    plainValue? (l.radix == .hexadecimal) (l.text.toList.map Char.toLower) =
      (some l.valueRead).filter (· < Text.wordLimit 64) := by
  have hread := unsigned?_digits l.radix (Text.wordLimit 64) l.digits_ne_nil l.digits_subset
  have hlead := l.lead_mem
  rw [map_toLower_text, h, valueRead, ← hread, List.map_nil, List.append_nil, plainValue?]
  cases hradix : l.radix <;> rw [hradix] at hlead
  case hexadecimal =>
    rcases List.mem_cons.mp hlead with h | h
    · rw [h]; rfl
    · rw [List.mem_singleton.mp h]; rfl
  all_goals
    rw [List.mem_singleton.mp hlead]
    rfl

/-- What was read takes more bits than an `int` has, and no more than a word has. -/
def ReadsWide : Prop := 2 ^ 31 ≤ l.valueRead ∧ l.valueRead < 2 ^ 64

instance : Decidable l.ReadsWide := inferInstanceAs (Decidable (_ ∧ _))

/-- **The type that is found**: the suffix fixes it, and without a suffix what was read. -/
def given : String :=
  (suffixType? l.isUnsigned l.longs).getD (if l.ReadsWide then "long" else "int")

theorem typeOfNumber_text : typeOfNumber l.text = .plain l.given := by
  rw [typeOfNumber]
  dsimp only
  rw [isPrefixOf_lower, not_floating, if_neg Bool.false_ne_true, takeWhile_reverse_lower,
    List.contains_reverse, List.count_reverse, given, isUnsigned, longs]
  cases hsuffix : suffixType? ((l.suffix.map Char.toLower).contains 'u')
      ((l.suffix.map Char.toLower).count 'l') with
  | some name => rfl
  | none =>
    have hnil : l.suffix = [] := List.map_eq_nil_iff.mp <|
      (by decide : ∀ s ∈ suffixes, suffixType? (s.contains 'u') (s.count 'l') = none → s = [])
        _ l.suffix_mem hsuffix
    dsimp only
    rw [plainValue?_lower l hnil, Option.getD_none]
    by_cases hword : l.valueRead < Text.wordLimit 64
    · rw [Option.filter_some, if_pos (decide_eq_true hword)]
      by_cases hlong : Text.wordLimit 31 ≤ l.valueRead
      · rw [if_pos ⟨hlong, hword⟩]
        exact if_pos hlong
      · rw [if_neg fun h => hlong h.1]
        exact if_neg hlong
    · rw [Option.filter_some, if_neg (by rwa [decide_eq_true_iff]), if_neg fun h => hword h.2]

/-! ## Sizes -/

theorem limit_eq : limit "int" = 2 ^ 31 ∧ limit "unsigned int" = 2 ^ 32 ∧ limit "long" = 2 ^ 63 ∧
    limit "unsigned long" = 2 ^ 64 ∧ limit "long long" = 2 ^ 63 ∧
      limit "unsigned long long" = 2 ^ 64 := by
  decide

/-- The first type of a list that holds a value is the head, or the first of the others. -/
theorem find?_limit {value : Nat} {name head : String} {rest : List String}
    (h : (head :: rest).find? (fun name => value < limit name) = some name) :
    (value < limit head ∧ head = name) ∨
      (limit head ≤ value ∧ rest.find? (fun name => value < limit name) = some name) := by
  by_cases hvalue : value < limit head
  · rw [List.find?_cons, decide_eq_true hvalue] at h
    exact .inl ⟨hvalue, Option.some.inj h⟩
  · rw [List.find?_cons, decide_eq_false hvalue] at h
    exact .inr ⟨Nat.le_of_not_lt hvalue, h⟩

/-- A suffix fixes the first of the types that it leaves. -/
theorem candidates_of_suffix (isDecimal : Bool) : ∀ s ∈ suffixes, ∀ name,
    suffixType? (s.contains 'u') (s.count 'l') = some name →
      ∃ rest, candidates isDecimal (s.contains 'u') (s.count 'l') = name :: rest ∧ name ∉ rest := by
  intro s hs name hname
  simp only [suffixes, List.mem_cons, List.not_mem_nil, or_false] at hs
  rcases hs with rfl | rfl | rfl | rfl | rfl | rfl | rfl | rfl <;> cases hname <;>
    cases isDecimal <;> exact ⟨_, rfl, by decide⟩

/-- **What an `int` and a `long` are for**, where no suffix excludes a type. -/
theorem find?_candidates {isDecimal : Bool} {value : Nat} {name : String}
    (h : (candidates isDecimal false 0).find? (fun name => value < limit name) = some name) :
    ("int" = name ↔ value < 2 ^ 31) ∧
      ("long" = name ↔ (if isDecimal then 2 ^ 31 else 2 ^ 32) ≤ value ∧ value < 2 ^ 63) ∧
        (isDecimal = true → value < 2 ^ 63) := by
  obtain ⟨hint, hunsigned, hlong, hunsignedLong, hlongLong, hunsignedLongLong⟩ := limit_eq
  cases isDecimal
  · have hall : candidates false false 0 = ["int", "unsigned int", "long", "unsigned long",
        "long long", "unsigned long long"] := by decide
    rw [hall] at h
    rw [if_neg Bool.false_ne_true]
    refine and_assoc.mp ⟨?_, nofun⟩
    rcases find?_limit h with ⟨hv, rfl⟩ | ⟨hv, h⟩
    · exact ⟨iff_of_true rfl (hint ▸ hv), iff_of_false (by decide) (by omega)⟩
    rcases find?_limit h with ⟨hv', rfl⟩ | ⟨hv, h⟩
    · exact ⟨iff_of_false (by decide) (by omega), iff_of_false (by decide) (by omega)⟩
    rcases find?_limit h with ⟨hv', rfl⟩ | ⟨hv, h⟩
    · exact ⟨iff_of_false (by decide) (by omega), iff_of_true rfl (by omega)⟩
    rcases find?_limit h with ⟨-, rfl⟩ | ⟨hv, h⟩
    · exact ⟨iff_of_false (by decide) (by omega), iff_of_false (by decide) (by omega)⟩
    -- no value is left for the types of two `l`
    rcases find?_limit h with ⟨hlast, -⟩ | ⟨-, h⟩
    · omega
    rcases find?_limit h with ⟨hlast, -⟩ | ⟨-, h⟩
    · omega
    · exact nomatch h
  · rw [if_pos rfl]
    rcases find?_limit h with ⟨hv, rfl⟩ | ⟨hv, h⟩
    · exact ⟨iff_of_true rfl (hint ▸ hv), iff_of_false (by decide) (by omega), fun _ => by omega⟩
    rcases find?_limit h with ⟨hv, rfl⟩ | ⟨hv, h⟩
    · exact ⟨iff_of_false (by decide) (by omega), iff_of_true rfl (by omega), fun _ => by omega⟩
    rcases find?_limit h with ⟨hlast, -⟩ | ⟨-, h⟩
    · omega
    · exact nomatch h

/-- A suffix that fixes a type fixes the one of the standard for the values that the type holds. -/
theorem suffixType?_eq_iff {fixed name : String} (h : l.standard? = some name)
    (hsuffix : suffixType? l.isUnsigned l.longs = some fixed) :
    fixed = name ↔ l.value < limit fixed := by
  obtain ⟨rest, hrest, hnot⟩ :=
    candidates_of_suffix (l.radix == .decimal) _ l.suffix_mem fixed hsuffix
  rw [standard?, isUnsigned, longs, hrest] at h
  rcases find?_limit h with ⟨hvalue, rfl⟩ | ⟨hvalue, h⟩
  · exact iff_of_true rfl hvalue
  · refine iff_of_false ?_ (Nat.not_lt.mpr hvalue)
    rintro rfl
    exact hnot (List.mem_of_find?_eq_some h)

theorem readsWide_iff_of_decimal (h : l.radix = .decimal) :
    l.ReadsWide ↔ 2 ^ 31 ≤ l.value ∧ l.value < 2 ^ 64 := by
  have hread : l.valueRead = l.value := by rw [valueRead, value, h]; rfl
  rw [ReadsWide, hread]

/-- Without a suffix that fixes a type, the type goes by the value that was read; a decimal one is
read as it is meant. -/
theorem plainType_eq_iff {name : String} (h : l.standard? = some name)
    (hsuffix : suffixType? l.isUnsigned l.longs = none) :
    (if l.ReadsWide then "long" else "int") = name ↔
      l.radix = .decimal ∨ (l.value < 2 ^ 31 ∧ ¬ l.ReadsWide) ∨
        (2 ^ 32 ≤ l.value ∧ l.value < 2 ^ 63 ∧ l.ReadsWide) := by
  have hplain : l.isUnsigned = false ∧ l.longs = 0 :=
    (by decide : ∀ s ∈ suffixes, suffixType? (s.contains 'u') (s.count 'l') = none →
      s.contains 'u' = false ∧ s.count 'l' = 0) _ l.suffix_mem hsuffix
  rw [standard?, hplain.1, hplain.2] at h
  obtain ⟨hint, hlong, hsigned⟩ := find?_candidates h
  by_cases hradix : l.radix = .decimal
  · have hvalue := hsigned (beq_iff_eq.mpr hradix)
    refine iff_of_true ?_ (.inl hradix)
    rw [beq_iff_eq.mpr hradix, if_pos rfl] at hlong
    split
    · next hwide => exact hlong.mpr ⟨((l.readsWide_iff_of_decimal hradix).mp hwide).1, hvalue⟩
    · next hnarrow =>
      rw [l.readsWide_iff_of_decimal hradix] at hnarrow
      exact hint.mpr (by omega)
  · rw [beq_eq_false_iff_ne.mpr hradix, if_neg Bool.false_ne_true] at hlong
    rw [or_iff_right hradix]
    split
    · next hwide => simp only [hlong, hwide, not_true, and_false, and_true, false_or]
    · next hnarrow => simp only [hint, hnarrow, not_false_eq_true, and_true, and_false, or_false]

/-- **The literal is typed by its value.**  If it has a suffix, its value fits into the type that the
suffix fixes.  If not, it is decimal; or it fits into an `int`, or takes more than four bytes and
leaves the sign bit clear, and was read as such. -/
def IsSized (l : IntegerLiteral) : Prop :=
  match suffixType? l.isUnsigned l.longs with
  | some name => l.value < limit name
  | none => l.radix = .decimal ∨ (l.value < 2 ^ 31 ∧ ¬ l.ReadsWide) ∨
      (2 ^ 32 ≤ l.value ∧ l.value < 2 ^ 63 ∧ l.ReadsWide)

/-- **The type that is found is the one of the standard** exactly for the literals that are typed by
their value. -/
theorem typeOfNumber_eq_iff {name : String} (h : l.standard? = some name) :
    typeOfNumber l.text = .plain name ↔ l.IsSized := by
  have hname : typeOfNumber l.text = .plain name ↔ l.given = name := by
    rw [typeOfNumber_text, CType.plain, CType.plain, CType.named.injEq]
    exact and_iff_left rfl
  rw [hname, given, IsSized]
  cases hsuffix : suffixType? l.isUnsigned l.longs with
  | some fixed => exact l.suffixType?_eq_iff h hsuffix
  | none => exact l.plainType_eq_iff h hsuffix

/-- A literal in hexadecimal notation with a suffix, `0xFFul`. -/
def suffixed : IntegerLiteral where
  radix := .hexadecimal
  lead := ['0', 'x']
  digits := ['F', 'F']
  suffix := ['u', 'l']
  lead_mem := by decide
  digits_subset := by decide
  starts := rfl
  suffix_mem := by decide

theorem typeOfNumber_suffixed : suffixed.standard? = some "unsigned long" ∧
    suffixed.IsSized ∧ typeOfNumber suffixed.text = .plain "unsigned long" := by
  have hstandard : suffixed.standard? = some "unsigned long" := by decide
  have hsized : suffixed.IsSized := by
    change suffixed.value < limit "unsigned long"
    decide
  exact ⟨hstandard, hsized, (typeOfNumber_eq_iff suffixed hstandard).mpr hsized⟩

/-- The largest `int` in octal notation, `017777777777`. -/
def largestInt : IntegerLiteral where
  radix := .octal
  lead := []
  digits := "017777777777".toList
  suffix := []
  lead_mem := by decide
  digits_subset := by decide
  starts := rfl
  suffix_mem := by decide

/-- The first number that only an `unsigned int` of the types of four bytes holds, `0x80000000`. -/
def signBit : IntegerLiteral where
  radix := .hexadecimal
  lead := ['0', 'x']
  digits := "80000000".toList
  suffix := []
  lead_mem := by decide
  digits_subset := by decide
  starts := rfl
  suffix_mem := by decide

/-- **Both are taken for a `long`**: octal digits are read as decimal ones, and no literal without a
suffix is unsigned. -/
theorem typeOfNumber_largestInt : largestInt.standard? = some "int" ∧
    typeOfNumber largestInt.text = .plain "long" ∧
      signBit.standard? = some "unsigned int" ∧ typeOfNumber signBit.text = .plain "long" := by
  decide

end IntegerLiteral

end ProbeWeaver.Literal
