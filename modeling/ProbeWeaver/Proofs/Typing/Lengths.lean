import Mathlib.Algebra.GroupWithZero.Nat
import Mathlib.Data.Finset.Card
import Mathlib.Data.List.Forall2
import ProbeWeaver.Proofs.Typing.Literals
import ProbeWeaver.Proofs.Typing.Unwinding

/-!
# Proofs/Typing/Lengths — the lengths of initialized arrays

C gives an array without a size as many elements as its initializer needs: a string literal the bytes
that it denotes and a terminator, a list one more than the largest index that it initializes.  The
size that is filled in takes every escape to have two characters, and counts the entries of a list;
`Declarator.sized_iff` says when that comes to the same.
-/

namespace ProbeWeaver.Literal

/-! ## String literals -/

/-- **A piece of a string literal**: a character that stands for itself, or an escape. -/
inductive Piece where
  | plain (c : Char)
  | simple (c : Char)
  | octal (digits : List Char)
  | hexadecimal (digits : List Char)
  deriving DecidableEq, Repr

namespace Piece

/-- How a piece is written. -/
def chars : Piece → List Char
  | plain c => [c]
  | simple c => ['\\', c]
  | octal digits => '\\' :: digits
  | hexadecimal digits => '\\' :: 'x' :: digits

/-- The characters of simple escapes. -/
def simples : List Char := ['\'', '"', '?', '\\', 'a', 'b', 'f', 'n', 'r', 't', 'v']

/-- The piece is one that C has. -/
def IsWritten : Piece → Prop
  | plain c => c ≠ '"' ∧ c ≠ '\\' ∧ c ≠ '\n'
  | simple c => c ∈ simples
  | octal digits => digits ≠ [] ∧ digits.length ≤ 3 ∧ digits ⊆ Radix.octal.digits
  | hexadecimal digits => digits ≠ [] ∧ digits ⊆ Radix.hexadecimal.digits

/-- A character behind the piece belongs to it. -/
def Takes : Piece → Char → Prop
  | plain _, _ | simple _, _ => False
  | octal digits, c => digits.length < 3 ∧ c ∈ Radix.octal.digits
  | hexadecimal _, c => c ∈ Radix.hexadecimal.digits

instance : DecidablePred IsWritten
  | plain _ => inferInstanceAs (Decidable (_ ∧ _ ∧ _))
  | simple _ => inferInstanceAs (Decidable (_ ∈ simples))
  | octal _ => inferInstanceAs (Decidable (_ ∧ _ ∧ _))
  | hexadecimal _ => inferInstanceAs (Decidable (_ ∧ _))

instance : ∀ (p : Piece) (c : Char), Decidable (p.Takes c)
  | plain _, _ | simple _, _ => inferInstanceAs (Decidable False)
  | octal _, _ => inferInstanceAs (Decidable (_ ∧ _))
  | hexadecimal _, c => inferInstanceAs (Decidable (c ∈ Radix.hexadecimal.digits))

/-- **The bytes that a piece denotes.** -/
def bytes : Piece → Nat
  | plain c => c.utf8Size
  | simple _ | octal _ | hexadecimal _ => 1

/-- The characters of an escape behind its first two. -/
def excess : Piece → Nat
  | plain _ | simple _ => 0
  | octal digits => digits.length - 1
  | hexadecimal digits => digits.length

/-- An escape has two characters. -/
def IsShort : Piece → Prop
  | plain _ | simple _ => True
  | octal digits => digits.length = 1
  | hexadecimal _ => False

instance : DecidablePred IsShort
  | plain _ | simple _ => inferInstanceAs (Decidable True)
  | octal _ => inferInstanceAs (Decidable (_ = _))
  | hexadecimal _ => inferInstanceAs (Decidable False)

theorem excess_eq_zero_iff {p : Piece} (hp : p.IsWritten) : p.excess = 0 ↔ p.IsShort := by
  cases p with
  | plain | simple => exact iff_of_true rfl trivial
  | octal digits =>
    have hpos := List.length_pos_of_ne_nil hp.1
    rw [excess, IsShort]
    omega
  | hexadecimal digits =>
    exact iff_of_false (fun h => hp.1 (List.length_eq_zero_iff.mp h)) id

end Piece

/-- **A string literal**: its pieces between quotation marks, where an escape goes as far as it
can. -/
structure StringLiteral where
  lead : List Char
  pieces : List Piece
  lead_mem : lead ∈ [[], ['u', '8']]
  written : ∀ p ∈ pieces, p.IsWritten
  apart : pieces.IsChain fun p q => ∀ c ∈ q.chars.head?, ¬ p.Takes c

namespace StringLiteral

variable (l : StringLiteral)

/-- How the literal is written. -/
def chars : List Char := l.lead ++ '"' :: (l.pieces.flatMap Piece.chars ++ ['"'])

/-- **The bytes that the literal denotes.** -/
def bytes : Nat := (l.pieces.map Piece.bytes).sum

/-- The characters of escapes behind their first two. -/
def excess : Nat := (l.pieces.map Piece.excess).sum

end StringLiteral

/-! ## One reading -/

/-- Characters of one sort that are followed by others go equally far. -/
theorem eq_of_append_eq {digits ds ds' as bs : List Char} (hds : ds ⊆ digits)
    (hds' : ds' ⊆ digits) (h : ds ++ as = ds' ++ bs)
    (has : ds.length < ds'.length → ∀ c ∈ as.head?, c ∉ digits)
    (hbs : ds'.length < ds.length → ∀ c ∈ bs.head?, c ∉ digits) : ds = ds' := by
  rcases List.append_eq_append_iff.mp h with ⟨more, rfl, rfl⟩ | ⟨more, rfl, rfl⟩
  · cases more with
    | nil => exact (List.append_nil ds).symm
    | cons c more =>
      refine absurd (hds' (List.mem_append_right ds List.mem_cons_self)) (has ?_ c rfl)
      rw [List.length_append, List.length_cons]
      omega
  · cases more with
    | nil => exact List.append_nil ds'
    | cons c more =>
      refine absurd (hds (List.mem_append_right ds' List.mem_cons_self)) (hbs ?_ c rfl)
      rw [List.length_append, List.length_cons]
      omega

namespace Piece

/-- The sort of the piece that characters start with. -/
def sortOf : List Char → Nat
  | '\\' :: c :: _ => if c = 'x' then 3 else if c ∈ Radix.octal.digits then 2 else 1
  | _ => 0

/-- The sort of a piece. -/
def sort : Piece → Nat
  | plain _ => 0
  | simple _ => 1
  | octal _ => 2
  | hexadecimal _ => 3

/-- What stands behind the backslash tells simple escapes from the others. -/
theorem simples_unmarked : ∀ c ∈ simples, c ≠ 'x' ∧ c ∉ Radix.octal.digits :=
  List.forall_iff_forall_mem.mp (by decide +kernel)

theorem sortOf_chars {p : Piece} (hp : p.IsWritten) (rest : List Char) :
    sortOf (p.chars ++ rest) = p.sort := by
  cases p with
  | plain c =>
    rw [sortOf.eq_def]
    split
    · next h => exact absurd (List.cons.inj h).1 hp.2.1
    · rfl
  | simple c =>
    obtain ⟨hx, hoctal⟩ := simples_unmarked c hp
    exact (if_neg hx).trans (if_neg hoctal)
  | octal digits =>
    obtain ⟨hne, -, hdigits⟩ := hp
    obtain ⟨c, digits, rfl⟩ := List.exists_cons_of_ne_nil hne
    have hc := hdigits List.mem_cons_self
    have hx : c ≠ 'x' := fun h => absurd hc (h ▸ by decide)
    exact (if_neg hx).trans (if_pos hc)
  | hexadecimal digits => rfl

/-- **One piece** stands at the start of characters that do not belong to it. -/
theorem eq_of_chars_append {p q : Piece} {as bs : List Char} (hp : p.IsWritten) (hq : q.IsWritten)
    (h : p.chars ++ as = q.chars ++ bs) (has : ∀ c ∈ as.head?, ¬ p.Takes c)
    (hbs : ∀ c ∈ bs.head?, ¬ q.Takes c) : p = q := by
  have hsort : p.sort = q.sort := by rw [← sortOf_chars hp as, h, sortOf_chars hq]
  cases p <;> cases q
  all_goals try exact absurd hsort (Nat.ne_of_beq_eq_false rfl)
  case plain.plain => exact congrArg plain (List.cons.inj h).1
  case simple.simple => exact congrArg simple (List.cons.inj (List.cons.inj h).2).1
  case octal.octal =>
    refine congrArg octal (eq_of_append_eq hp.2.2 hq.2.2 (List.cons.inj h).2 ?_ ?_)
    · exact fun hlt c hc hmem => has c hc ⟨Nat.lt_of_lt_of_le hlt hq.2.1, hmem⟩
    · exact fun hlt c hc hmem => hbs c hc ⟨Nat.lt_of_lt_of_le hlt hp.2.1, hmem⟩
  case hexadecimal.hexadecimal =>
    exact congrArg hexadecimal (eq_of_append_eq hp.2 hq.2 (List.cons.inj (List.cons.inj h).2).2
      (fun _ => has) (fun _ => hbs))

theorem chars_ne_nil (p : Piece) : p.chars ≠ [] := by cases p <;> exact List.cons_ne_nil _ _

theorem head?_chars_ne {p : Piece} (hp : p.IsWritten) : p.chars.head? ≠ some '"' := by
  cases p with
  | plain c => exact fun h => hp.1 (Option.some.inj h)
  | simple | octal | hexadecimal => exact fun h => absurd (Option.some.inj h) (by decide)

theorem not_takes_quote (p : Piece) : ¬ p.Takes '"' := by
  cases p with
  | plain | simple => exact id
  | octal => exact fun h => absurd h.2 (by decide)
  | hexadecimal => exact (by decide : '"' ∉ Radix.hexadecimal.digits)

/-- **The pieces of a literal** are told by its characters up to the closing quotation mark. -/
theorem eq_of_flatMap_chars : ∀ {ps qs : List Piece} {as bs : List Char},
    (∀ p ∈ ps, p.IsWritten) → (∀ q ∈ qs, q.IsWritten) →
    (ps.IsChain fun p q => ∀ c ∈ q.chars.head?, ¬ p.Takes c) →
    (qs.IsChain fun p q => ∀ c ∈ q.chars.head?, ¬ p.Takes c) →
    ps.flatMap chars ++ '"' :: as = qs.flatMap chars ++ '"' :: bs → ps = qs ∧ as = bs
  | [], [], _, _, _, _, _, _, h => ⟨rfl, (List.cons.inj h).2⟩
  | [], q :: qs, _, _, _, hq, _, _, h => by
      refine absurd (congrArg List.head? h).symm ?_
      rw [List.flatMap_cons, List.append_assoc, List.head?_append_of_ne_nil _ q.chars_ne_nil]
      exact head?_chars_ne (hq q List.mem_cons_self)
  | p :: ps, [], _, _, hp, _, _, _, h => by
      refine absurd (congrArg List.head? h) ?_
      rw [List.flatMap_cons, List.append_assoc, List.head?_append_of_ne_nil _ p.chars_ne_nil]
      exact head?_chars_ne (hp p List.mem_cons_self)
  | p :: ps, q :: qs, as, bs, hp, hq, hps, hqs, h => by
      have hnext {p : Piece} {ps : List Piece} {as : List Char}
          (hchain : (p :: ps).IsChain fun p q => ∀ c ∈ q.chars.head?, ¬ p.Takes c) :
          ∀ c ∈ (ps.flatMap chars ++ '"' :: as).head?, ¬ p.Takes c := by
        cases ps with
        | nil => exact fun c hc => Option.some.inj hc ▸ p.not_takes_quote
        | cons q ps =>
          rw [List.flatMap_cons, List.append_assoc, List.head?_append_of_ne_nil _ q.chars_ne_nil]
          exact (List.isChain_cons_cons.mp hchain).1
      rw [List.flatMap_cons, List.flatMap_cons, List.append_assoc, List.append_assoc] at h
      obtain rfl := eq_of_chars_append (hp p List.mem_cons_self) (hq q List.mem_cons_self) h
        (hnext hps) (hnext hqs)
      obtain ⟨rfl, hrest⟩ := eq_of_flatMap_chars (List.forall_mem_cons.mp hp).2
        (List.forall_mem_cons.mp hq).2 hps.of_cons hqs.of_cons (List.append_cancel_left h)
      exact ⟨rfl, hrest⟩

end Piece

/-- **A string literal is told by its characters**, whatever follows. -/
theorem StringLiteral.eq_of_chars_append {l l' : StringLiteral} {as bs : List Char}
    (h : l.chars ++ as = l'.chars ++ bs) : l = l' ∧ as = bs := by
  have hpieces (l : StringLiteral) (as : List Char) : l.chars ++ as =
      l.lead ++ '"' :: (l.pieces.flatMap Piece.chars ++ '"' :: as) := by
    rw [chars, List.append_assoc, List.cons_append, List.append_assoc, List.singleton_append]
  rw [hpieces, hpieces] at h
  have hlead : l.lead = l'.lead := by
    have hmem := l.lead_mem
    have hmem' := l'.lead_mem
    simp only [List.mem_cons, List.not_mem_nil, or_false] at hmem hmem'
    rcases hmem with hl | hl <;> rcases hmem' with hl' | hl' <;> rw [hl, hl'] at h ⊢
    · exact absurd (List.cons.inj h).1 (by decide)
    · exact absurd (List.cons.inj h).1 (by decide)
  rw [hlead] at h
  obtain ⟨heq, hrest⟩ := Piece.eq_of_flatMap_chars l.written l'.written l.apart l'.apart
    (List.cons.inj (List.append_cancel_left h)).2
  cases l
  cases l'
  cases hlead
  cases heq
  exact ⟨rfl, hrest⟩

/-! ## Between string literals -/

/-- **What may stand between string literals**: a blank or a comment. -/
inductive Filler where
  | blank (c : Char)
  | block (body : List Char)
  | line (body : List Char)

namespace Filler

/-- How it is written. -/
def chars : Filler → List Char
  | blank c => [c]
  | block body => '/' :: '*' :: (body ++ ['*', '/'])
  | line body => '/' :: '/' :: (body ++ ['\n'])

/-- It is one that C has: a comment goes to its first end. -/
def IsWritten : Filler → Prop
  | blank c => c ∈ [' ', '\t', '\n', '\r', '\x0b', '\x0c']
  | block body => ¬ ['*', '/'] <:+: body
  | line body => '\n' ∉ body ∧ body.getLast? ≠ some '\\'

instance : DecidablePred IsWritten
  | blank _ => inferInstanceAs (Decidable (_ ∈ _))
  | block _ => inferInstanceAs (Decidable (¬ _ <:+: _))
  | line _ => inferInstanceAs (Decidable (_ ∧ _))

end Filler

/-- **String literals next to each other**, which make up one string. -/
structure Concatenation where
  first : StringLiteral
  rest : List (List Filler × StringLiteral)
  written : ∀ part ∈ rest, ∀ filler ∈ part.1, filler.IsWritten

namespace Concatenation

variable (s : Concatenation)

/-- A string literal and what stands before it. -/
def partChars (part : List Filler × StringLiteral) : List Char :=
  part.1.flatMap Filler.chars ++ part.2.chars

/-- How the literals are written. -/
def text : String := String.ofList (s.first.chars ++ s.rest.flatMap partChars)

/-- The literals in order. -/
def literals : List StringLiteral := s.first :: s.rest.map Prod.snd

/-- **The bytes that the literals denote.** -/
def bytes : Nat := (s.literals.map StringLiteral.bytes).sum

/-- No comment between the literals holds a quotation mark. -/
def IsQuiet : Prop := ∀ part ∈ s.rest, ∀ filler ∈ part.1, '"' ∉ filler.chars

/-- The escapes of the literals have two characters. -/
def IsShort : Prop := ∀ l ∈ s.literals, ∀ p ∈ l.pieces, p.IsShort

instance : Decidable s.IsQuiet :=
  inferInstanceAs (Decidable (∀ part ∈ s.rest, ∀ filler ∈ part.1, '"' ∉ filler.chars))

instance : Decidable s.IsShort :=
  inferInstanceAs (Decidable (∀ l ∈ s.literals, ∀ p ∈ l.pieces, p.IsShort))

end Concatenation

/-! ## Counting bytes -/

variable {rest : List Char}

theorem quotedBytes_plain {c : Char} (hquote : c ≠ '"') (hescape : c ≠ '\\') :
    quotedBytes true (c :: rest) = c.utf8Size + quotedBytes true rest := by
  rw [quotedBytes.eq_def]
  split <;> simp_all

/-- Digits are plain characters of one byte. -/
theorem digits_plain : ∀ c ∈ Radix.hexadecimal.digits, c ≠ '"' ∧ c ≠ '\\' ∧ c.utf8Size = 1 :=
  List.forall_iff_forall_mem.mp (by decide +kernel)

theorem quotedBytes_digits : ∀ {digits : List Char}, digits ⊆ Radix.hexadecimal.digits →
    quotedBytes true (digits ++ rest) = digits.length + quotedBytes true rest
  | [], _ => (Nat.zero_add _).symm
  | c :: digits, h => by
      obtain ⟨hc, hrest⟩ := List.cons_subset.mp h
      obtain ⟨hquote, hescape, hsize⟩ := digits_plain c hc
      rw [List.cons_append, quotedBytes_plain hquote hescape, hsize, quotedBytes_digits hrest,
        List.length_cons]
      omega

/-- **A piece is counted** by the bytes that it denotes and the characters of an escape that are too
many. -/
theorem quotedBytes_piece {p : Piece} (hp : p.IsWritten) :
    quotedBytes true (p.chars ++ rest) = p.bytes + p.excess + quotedBytes true rest := by
  cases p with
  | plain c => exact quotedBytes_plain hp.1 hp.2.1
  | simple c => rfl
  | octal digits =>
    obtain ⟨hne, -, hdigits⟩ := hp
    obtain ⟨c, digits, rfl⟩ := List.exists_cons_of_ne_nil hne
    have hrest : digits ⊆ Radix.hexadecimal.digits := fun c hc =>
      (by decide : Radix.octal.digits ⊆ Radix.hexadecimal.digits)
        (hdigits (List.mem_cons_of_mem _ hc))
    rw [Piece.chars, List.cons_append, List.cons_append, quotedBytes, quotedBytes_digits hrest,
      Piece.bytes, Piece.excess, List.length_cons]
    omega
  | hexadecimal digits =>
    rw [Piece.chars, List.cons_append, List.cons_append, quotedBytes, quotedBytes_digits hp.2,
      Piece.bytes, Piece.excess]
    omega

theorem quotedBytes_pieces : ∀ {pieces : List Piece}, (∀ p ∈ pieces, p.IsWritten) →
    quotedBytes true (pieces.flatMap Piece.chars ++ rest) =
      (pieces.map Piece.bytes).sum + (pieces.map Piece.excess).sum + quotedBytes true rest
  | [], _ => (Nat.zero_add _).symm
  | p :: pieces, h => by
      obtain ⟨hp, hpieces⟩ := List.forall_mem_cons.mp h
      rw [List.flatMap_cons, List.append_assoc, quotedBytes_piece hp, quotedBytes_pieces hpieces,
        List.map_cons, List.map_cons, List.sum_cons, List.sum_cons]
      omega

/-- Outside quotation marks, nothing is counted up to the next one. -/
theorem quotedBytes_unquoted : ∀ {cs : List Char}, '"' ∉ cs →
    quotedBytes false (cs ++ rest) = quotedBytes false rest
  | [], _ => rfl
  | c :: cs, h => by
      obtain ⟨hc, hcs⟩ := List.ne_and_not_mem_of_not_mem_cons h
      rw [List.cons_append, quotedBytes, beq_eq_false_iff_ne.mpr (Ne.symm hc),
        quotedBytes_unquoted hcs]

theorem quotedBytes_literal (l : StringLiteral) :
    quotedBytes false (l.chars ++ rest) = l.bytes + l.excess + quotedBytes false rest := by
  have hlead : '"' ∉ l.lead :=
    (by decide : ∀ lead ∈ [[], ['u', '8']], '"' ∉ lead) l.lead l.lead_mem
  have hopen : quotedBytes false ('"' :: (l.pieces.flatMap Piece.chars ++ '"' :: rest)) =
      quotedBytes true (l.pieces.flatMap Piece.chars ++ '"' :: rest) := rfl
  rw [StringLiteral.chars, List.append_assoc, quotedBytes_unquoted hlead, List.cons_append,
    List.append_assoc, List.singleton_append, hopen, quotedBytes_pieces l.written]
  rfl

namespace Concatenation

variable (s : Concatenation)

theorem quotedBytes_parts : ∀ {parts : List (List Filler × StringLiteral)},
    (∀ part ∈ parts, ∀ filler ∈ part.1, '"' ∉ filler.chars) →
      quotedBytes false (parts.flatMap partChars) =
        ((parts.map Prod.snd).map StringLiteral.bytes).sum +
          ((parts.map Prod.snd).map StringLiteral.excess).sum
  | [], _ => rfl
  | part :: parts, h => by
      obtain ⟨hpart, hparts⟩ := List.forall_mem_cons.mp h
      have hgap : '"' ∉ part.1.flatMap Filler.chars := fun hmem => by
        obtain ⟨filler, hfiller, hquote⟩ := List.mem_flatMap.mp hmem
        exact hpart filler hfiller hquote
      rw [List.flatMap_cons, partChars, List.append_assoc, quotedBytes_unquoted hgap,
        quotedBytes_literal, quotedBytes_parts hparts]
      simp only [List.map_cons, List.sum_cons]
      omega

/-- **What is counted of a string** is what it denotes, and the characters of its escapes that are
too many. -/
theorem quotedBytes_text (hquiet : s.IsQuiet) :
    quotedBytes false s.text.toList = s.bytes + (s.literals.map StringLiteral.excess).sum := by
  rw [text, String.toList_ofList, quotedBytes_literal, quotedBytes_parts hquiet, bytes, literals]
  simp only [List.map_cons, List.sum_cons]
  omega

/-- **A string is counted right** exactly if its escapes have two characters. -/
theorem stringSize_eq_iff (hquiet : s.IsQuiet) : stringSize s.text = s.bytes + 1 ↔ s.IsShort := by
  have hliteral (l : StringLiteral) : l.excess = 0 ↔ ∀ p ∈ l.pieces, p.IsShort := by
    rw [StringLiteral.excess, List.sum_eq_zero_iff_forall_eq_nat, List.forall_mem_map]
    exact forall₂_congr fun p hp => Piece.excess_eq_zero_iff (l.written p hp)
  have hall : (s.literals.map StringLiteral.excess).sum = 0 ↔ s.IsShort := by
    rw [List.sum_eq_zero_iff_forall_eq_nat, List.forall_mem_map]
    exact forall₂_congr fun l _ => hliteral l
  rw [stringSize, s.quotedBytes_text hquiet, ← hall]
  omega

end Concatenation

/-! ## Lists -/

/-- **The entries of a list**, each with the literal that designates its index, if one does. -/
abbrev Entries := List (Option IntegerLiteral)

namespace Entries

/-- The indices that entries initialize, from the next one on: an entry without a designator goes on
behind the one before it. -/
def indicesFrom : Nat → Entries → List Nat
  | _, [] => []
  | next, entry :: entries =>
    let index := (entry.map IntegerLiteral.value).getD next
    index :: indicesFrom (index + 1) entries

variable (entries : Entries)

def indices : List Nat := indicesFrom 0 entries

/-- **One more than the largest index** that entries initialize. -/
def extent : Nat := entries.indices.foldr (fun index n => max (index + 1) n) 0

/-- How many indices below the largest are initialized by no entry. -/
def leftOut : Nat := (Finset.range entries.extent \ entries.indices.toFinset).card

/-- How many entries initialize an index that another entry initializes. -/
def repeated : Nat := List.length entries.indices - entries.indices.toFinset.card

/-- Every index is below the length. -/
theorem lt_foldr_of_mem : ∀ {indices : List Nat} {index : Nat}, index ∈ indices →
    index < indices.foldr (fun index n => max (index + 1) n) 0
  | i :: indices, index, h => by
      rw [List.foldr_cons]
      rcases List.mem_cons.mp h with rfl | h
      · exact Nat.lt_of_lt_of_le (Nat.lt_succ_self _) (Nat.le_max_left _ _)
      · exact Nat.lt_of_lt_of_le (lt_foldr_of_mem h) (Nat.le_max_right _ _)

theorem length_indicesFrom : ∀ (next : Nat) (entries : Entries),
    (indicesFrom next entries).length = List.length entries
  | _, [] => rfl
  | _, _ :: entries => congrArg (· + 1) (length_indicesFrom _ entries)

/-- **A list is counted right** exactly if as many entries initialize an index again as indices are
left out. -/
theorem length_eq_extent_iff :
    List.length entries = entries.extent ↔ entries.leftOut = entries.repeated := by
  have hsubset : entries.indices.toFinset ⊆ Finset.range entries.extent := fun index h =>
    Finset.mem_range.mpr (lt_foldr_of_mem (List.mem_toFinset.mp h))
  have hdistinct := entries.indices.toFinset_card_le
  have hbelow := Finset.card_le_card hsubset
  have hcount : List.length entries.indices = List.length entries := length_indicesFrom 0 entries
  rw [leftOut, repeated, Finset.card_sdiff_of_subset hsubset, Finset.card_range]
  rw [Finset.card_range] at hbelow
  omega

/-- **A list without designators** leaves out no index and repeats none. -/
theorem leftOut_eq_of_undesignated (h : ∀ entry ∈ entries, entry = none) :
    entries.leftOut = entries.repeated := by
  have hextent : ∀ (entries : Entries) (next : Nat), (∀ entry ∈ entries, entry = none) →
      (indicesFrom next entries).foldr (fun index n => max (index + 1) n) 0 =
        if List.length entries = 0 then 0 else next + List.length entries := by
    intro entries
    induction entries with
    | nil => exact fun _ _ => rfl
    | cons entry entries ih =>
      intro next h
      obtain ⟨rfl, hentries⟩ := List.forall_mem_cons.mp h
      rw [indicesFrom, Option.map_none, Option.getD_none, List.foldr_cons, ih (next + 1) hentries,
        List.length_cons, if_neg (Nat.succ_ne_zero _)]
      split <;> omega
  rw [← length_eq_extent_iff, extent, indices, hextent entries 0 h]
  split <;> omega

end Entries

end ProbeWeaver.Literal

namespace ProbeWeaver.Declarator

open Literal

variable {source : String} {decl v : Node} {d : Declarator} {element : CType}

/-! ## Initializers -/

/-- **An entry of a list** spells the initializer of a scalar, alone or behind an index.  A string
literal there is the value of a pointer. -/
inductive SpellsEntry (source : String) (e : Node) : Option IntegerLiteral → Prop where
  | plain (unpaired : e.kind ≠ .other "initializer_pair") (flat : e.kind ≠ .initializerList) :
      SpellsEntry source e none
  | designated {designator index scalar : Node} {l : IntegerLiteral}
      (paired : e.kind = .other "initializer_pair")
      (alone : e.fillers (.other "designator") = [designator])
      (subscript : designator.kind = .other "subscript_designator")
      (holds : designator.namedChildren = [index]) (number : index.kind = .numberLiteral)
      (spelled : index.text source = l.text)
      (behind : e.field? .value = some scalar) (flat : scalar.kind ≠ .initializerList) :
      SpellsEntry source e (some l)

/-- **What an array is initialized by.** -/
inductive Contents where
  | string (s : Concatenation)
  | list (entries : Entries)

namespace Contents

/-- **The number of elements that C gives the array**, a terminator of a string included. -/
def length : Contents → Nat
  | string s => s.bytes + 1
  | list entries => entries.extent

/-- An initializer spells the contents. -/
def IsSpelledBy (source : String) (v : Node) : Contents → Prop
  | string s => (v.kind = .stringLiteral ∨ v.kind = .concatenatedString) ∧ v.text source = s.text
  | list entries => v.kind = .initializerList ∧
      List.Forall₂ (SpellsEntry source) v.namedChildren entries

/-- No comment between string literals holds a quotation mark. -/
def IsQuiet : Contents → Prop
  | string s => s.IsQuiet
  | list _ => True

/-- The escapes of a string have two characters; as many entries of a list initialize an index again
as indices are left out. -/
def IsRegular : Contents → Prop
  | string s => s.IsShort
  | list entries => entries.leftOut = entries.repeated

/-- **The contents are counted.** -/
theorem countFromInit?_spec {c : Contents} (hspelled : c.IsSpelledBy source v) (hquiet : c.IsQuiet) :
    ∃ size, countFromInit? source v = some size ∧ (size = c.length ↔ c.IsRegular) := by
  cases c with
  | string s =>
    obtain ⟨hkind, htext⟩ := hspelled
    refine ⟨stringSize s.text, ?_, s.stringSize_eq_iff hquiet⟩
    rw [countFromInit?, htext]
    rcases hkind with hkind | hkind <;> rw [hkind]
  | list entries =>
    obtain ⟨hkind, hentries⟩ := hspelled
    refine ⟨v.namedChildren.length, ?_, ?_⟩
    · rw [countFromInit?, hkind]
    · rw [hentries.length_eq]
      exact entries.length_eq_extent_iff

end Contents

/-! ## The size that is filled in -/

/-- The initializer of a declarator sizes its type. -/
theorem type_eq_of_mem_declarators {type : CType} (hd : d ∈ declarators source decl)
    (hpeel : peelNamed? source d.node (baseType source decl) = some (d.name, type)) :
    d.type = sizedBy source d.init type := by
  obtain ⟨n, -, hn⟩ := List.mem_filterMap.mp hd
  obtain ⟨⟨name, type'⟩, hnamed, rfl⟩ := Option.map_eq_some_iff.mp hn
  obtain ⟨-, rfl⟩ := Prod.mk.inj (Option.some.inj (hnamed.symm.trans hpeel))
  rfl

/-- **An array without a size takes the size that C gives it** exactly if its contents are regular.
Its initializer spells a string, whose literals have no quotation mark in a comment between them, or
a list of scalars; and some size is always filled in. -/
theorem sized_iff {c : Contents} (hd : d ∈ declarators source decl)
    (hunsized : peelNamed? source d.node (baseType source decl) =
      some (d.name, .array element none))
    (hinit : d.init = some v) (hspelled : c.IsSpelledBy source v) (hquiet : c.IsQuiet) :
    ∃ size : Nat, d.type = .array element (some (toString size)) ∧
      (size = c.length ↔ c.IsRegular) := by
  obtain ⟨size, hcount, hsize⟩ := Contents.countFromInit?_spec hspelled hquiet
  refine ⟨size, ?_, hsize⟩
  rw [type_eq_of_mem_declarators hd hunsized, hinit, sizedBy, Option.bind_some, hcount,
    Option.map_some]

/-! ## Strings and lists -/

/-- The declarator of an array without a size and with an initializer. -/
def unsizedDeclarator (stop : Nat) (value : Tree) : Tree :=
  .node .initDeclarator (some .declarator) ⟨5, stop⟩ false
    [.node .arrayDeclarator (some .declarator) ⟨5, 8⟩ false
       [.node .identifier (some .declarator) ⟨5, 6⟩ false [],
        .node (.token "[") none ⟨6, 7⟩ false [],
        .node (.token "]") none ⟨7, 8⟩ false []],
     .node (.token "=") none ⟨9, 10⟩ false [],
     value]

/-- The declaration of the array. -/
def unsized (stop : Nat) (value : Tree) : Node :=
  .root (.node .declaration none ⟨0, stop + 1⟩ false
    [.node (.other "primitive_type") (some .type) ⟨0, 4⟩ false [],
     unsizedDeclarator stop value,
     .node (.token ";") none ⟨stop, stop + 1⟩ false []])

/-- The initializer in the declaration. -/
def unsizedValue (stop : Nat) (value : Tree) : Node :=
  .child (.child (unsized stop value) 1 (unsizedDeclarator stop value)) 2 value

/-- **The declaration declares an array** without a size, and its initializer sizes it. -/
theorem exists_declarator_unsized (text : String) (stop : Nat) {value : Tree}
    (hvalue : value.field = some .value) :
    ∃ d, declarators text (unsized stop value) = [d] ∧
      peelNamed? text d.node (baseType text (unsized stop value)) =
        some (d.name, .array (baseType text (unsized stop value)) none) ∧
      d.init = some (unsizedValue stop value) := by
  let base := baseType text (unsized stop value)
  let node : Node := .child (unsized stop value) 1 (unsizedDeclarator stop value)
  let array : Node := .child node 0 (.node .arrayDeclarator (some .declarator) ⟨5, 8⟩ false
    [.node .identifier (some .declarator) ⟨5, 6⟩ false [],
     .node (.token "[") none ⟨6, 7⟩ false [],
     .node (.token "]") none ⟨7, 8⟩ false []])
  let name : Node := .child array 0 (.node .identifier (some .declarator) ⟨5, 6⟩ false [])
  have harray : node.field? .declarator = some array := rfl
  have hname : array.field? .declarator = some name := rfl
  have hsize : array.field? .size = none := rfl
  have hpeel : peelNamed? text node base = some (name, .array base none) := by
    rw [peelNamed?, peel_init rfl, harray, peelOptional,
      peel_array (show array.kind = Level.array.kind false from rfl), hname, hsize, peelOptional,
      peel_of_name (show name.kind ∈ nameKinds from List.mem_cons_self)]
    rfl
  have hinit : init? node = some (unsizedValue stop value) := by
    have hfind : node.field? .value = some (unsizedValue stop value) := by
      obtain ⟨kind, field, span, missing, children⟩ := value
      obtain rfl : field = some .value := hvalue
      rfl
    exact (if_pos rfl).trans hfind
  refine ⟨⟨name, sizedBy text (init? node) (.array base none), node, init? node⟩, ?_, hpeel, hinit⟩
  show [node].filterMap _ = _
  rw [List.filterMap_cons, hpeel]
  rfl

/-- The literals `"a\n"` and `"c"` with a comment between them. -/
def joined : Concatenation where
  first := ⟨[], [.plain 'a', .simple 'n'], by decide, by decide,
    .cons_cons (fun _ _ => id) (.singleton _)⟩
  rest := [([.blank ' ', .block " b ".toList, .blank ' '],
    ⟨[], [.plain 'c'], by decide, by decide, by decide⟩)]
  written := by decide

/-- An array of the literals. -/
def joinedText : String := "char s[] = \"a\\n\" /* b */ \"c\";"

/-- The tree of the literals. -/
def joinedTree : Tree := .node .concatenatedString (some .value) ⟨11, 28⟩ false
  [.node .stringLiteral none ⟨11, 16⟩ false [], .node .comment none ⟨17, 24⟩ false [],
   .node .stringLiteral none ⟨25, 28⟩ false []]

theorem sized_joined : ∃ d, declarators joinedText (unsized 28 joinedTree) = [d] ∧
    (Contents.string joined).IsSpelledBy joinedText (unsizedValue 28 joinedTree) ∧
      (Contents.string joined).IsQuiet ∧ (Contents.string joined).IsRegular ∧
        d.type = .array (.plain "char") (some "4") := by
  obtain ⟨d, hd, hunsized, hinit⟩ := exists_declarator_unsized joinedText 28
    (show joinedTree.field = some .value from rfl)
  have hbase : baseType joinedText (unsized 28 joinedTree) = .plain "char" := by decide +kernel
  have hspelled : (Contents.string joined).IsSpelledBy joinedText (unsizedValue 28 joinedTree) :=
    ⟨.inr rfl, by decide +kernel⟩
  have hquiet : joined.IsQuiet := by decide
  have hregular : joined.IsShort := by decide
  obtain ⟨size, htype, hsize⟩ :=
    sized_iff (hd ▸ List.mem_cons_self) hunsized hinit hspelled hquiet
  obtain rfl : size = 4 := hsize.mpr hregular
  exact ⟨d, hd, hspelled, hquiet, hregular, hbase ▸ htype⟩

/-- The literal `"\x41"`. -/
def letter : Concatenation :=
  ⟨⟨[], [.hexadecimal ['4', '1']], by decide, by decide, by decide⟩, [], by decide⟩

/-- An array of the literal. -/
def letterText : String := "char s[] = \"\\x41\";"

/-- The tree of the literal. -/
def letterTree : Tree := .node .stringLiteral (some .value) ⟨11, 17⟩ false []

/-- The literals `"a"` and `"b"`, and a quotation mark in a comment between them. -/
def quoted : Concatenation where
  first := ⟨[], [.plain 'a'], by decide, by decide, by decide⟩
  rest := [([.blank ' ', .block " \" ".toList, .blank ' '],
    ⟨[], [.plain 'b'], by decide, by decide, by decide⟩)]
  written := by decide

/-- An array of the literals. -/
def quotedText : String := "char s[] = \"a\" /* \" */ \"b\";"

/-- The tree of the literals. -/
def quotedTree : Tree := .node .concatenatedString (some .value) ⟨11, 26⟩ false
  [.node .stringLiteral none ⟨11, 14⟩ false [], .node .comment none ⟨15, 22⟩ false [],
   .node .stringLiteral none ⟨23, 26⟩ false []]

/-- A literal can do without a suffix. -/
theorem bare_mem_suffixes : ([] : List Char).map Char.toLower ∈ suffixes := by decide

/-- The literal `5`. -/
def five : IntegerLiteral where
  radix := .decimal
  lead := []
  digits := ['5']
  suffix := []
  lead_mem := by decide
  digits_subset := by decide
  starts := rfl
  suffix_mem := bare_mem_suffixes

/-- An array with one element that is designated. -/
def sparseText : String := "long a[] = \x7b[5] = 1\x7d;"

/-- The tree of the list. -/
def sparseTree : Tree := .node .initializerList (some .value) ⟨11, 20⟩ false
  [.node (.token "\x7b") none ⟨11, 12⟩ false [],
   .node (.other "initializer_pair") none ⟨12, 19⟩ false
     [.node (.other "subscript_designator") (some (.other "designator")) ⟨12, 15⟩ false
        [.node (.token "[") none ⟨12, 13⟩ false [],
         .node .numberLiteral none ⟨13, 14⟩ false [],
         .node (.token "]") none ⟨14, 15⟩ false []],
      .node (.token "=") none ⟨16, 17⟩ false [],
      .node .numberLiteral (some .value) ⟨18, 19⟩ false []],
   .node (.token "\x7d") none ⟨19, 20⟩ false []]

/-- The element is designated by its index. -/
theorem isSpelledBy_sparse :
    (Contents.list [some five]).IsSpelledBy sparseText (unsizedValue 20 sparseTree) :=
  ⟨rfl, .cons (.designated rfl rfl rfl rfl rfl (by decide +kernel) rfl (by decide)) .nil⟩

/-- **Other sizes than those of C are filled in**: for an escape of four characters, for a quotation
mark in a comment, and for an index that is left out. -/
theorem sized_irregular :
    (∃ d, declarators letterText (unsized 17 letterTree) = [d] ∧
      (Contents.string letter).IsSpelledBy letterText (unsizedValue 17 letterTree) ∧
        (Contents.string letter).length = 2 ∧ d.type = .array (.plain "char") (some "4")) ∧
    (∃ d, declarators quotedText (unsized 26 quotedTree) = [d] ∧
      (Contents.string quoted).IsSpelledBy quotedText (unsizedValue 26 quotedTree) ∧
        (Contents.string quoted).length = 3 ∧ d.type = .array (.plain "char") (some "6")) ∧
    ∃ d, declarators sparseText (unsized 20 sparseTree) = [d] ∧
      (Contents.list [some five]).IsSpelledBy sparseText (unsizedValue 20 sparseTree) ∧
        (Contents.list [some five]).length = 6 ∧ d.type = .array (.plain "long") (some "1") := by
  have hsized (text : String) (stop size : Nat) (value : Tree) (element : String)
      (hvalue : value.field = some .value)
      (hbase : baseType text (unsized stop value) = .plain element)
      (hcount : countFromInit? text (unsizedValue stop value) = some size) :
      ∃ d, declarators text (unsized stop value) = [d] ∧
        d.type = .array (.plain element) (some (toString size)) := by
    obtain ⟨d, hd, hunsized, hinit⟩ := exists_declarator_unsized text stop hvalue
    refine ⟨d, hd, ?_⟩
    rw [type_eq_of_mem_declarators (hd ▸ List.mem_cons_self) hunsized, hinit, hbase, sizedBy,
      Option.bind_some, hcount, Option.map_some]
  obtain ⟨d, hd, htype⟩ := hsized letterText 17 4 letterTree "char" rfl (by decide +kernel)
    (by decide +kernel)
  obtain ⟨d', hd', htype'⟩ := hsized quotedText 26 6 quotedTree "char" rfl (by decide +kernel)
    (by decide +kernel)
  obtain ⟨d'', hd'', htype''⟩ := hsized sparseText 20 1 sparseTree "long" rfl (by decide +kernel)
    (by decide +kernel)
  exact ⟨⟨d, hd, ⟨.inl rfl, by decide +kernel⟩, by decide, htype⟩,
    ⟨d', hd', ⟨.inr rfl, by decide +kernel⟩, by decide, htype'⟩,
    d'', hd'', isSpelledBy_sparse, by decide, htype''⟩

end ProbeWeaver.Declarator
