import ProbeWeaver.Marker.Probe
import ProbeWeaver.Proofs.Text.Numerals
import ProbeWeaver.Proofs.Text.Parts

/-!
# Proofs/Marker/Reading — what a marker says when it is read back

A marker is read from its start to the first end of a comment behind it, and what stands between is
cut at the colons (`Marking.read?`).  Fields are not escaped, so a field may hold a colon or the end
of a comment, and then something else is read than was written.

* `body?_marker_iff` — a marker ends where its first end of a comment is unless a field holds one.
* `Marking.clean_of_read?` — a field that was read holds neither.
* `read?_marker_iff` — a marker is read as it was written exactly when its fields hold neither.
-/

namespace ProbeWeaver

open Text

variable {needle y : List Char} {kind f : String}
  {fields : List String} {id : Option Nat}

/-! ## The text in front of a needle -/

namespace Text

/-- The characters in front of the first occurrence of a needle, if there is one. -/
def charsBefore (needle : List Char) : List Char → Option (List Char)
  | [] => if needle.isEmpty then some [] else none
  | c :: cs =>
    if needle.isPrefixOf (c :: cs) then some []
    else (charsBefore needle cs).map (c :: ·)

/-- **The search passes over a silent part.** -/
theorem charsBefore_append : ∀ {x : List Char}, Silent needle x y →
    charsBefore needle (x ++ y) = (charsBefore needle y).map (x ++ ·)
  | [], _ => by simp
  | c :: x, h => by
      rw [List.cons_append, charsBefore, if_neg (fun hprefix => h.1
        (List.isPrefixOf_iff_prefix.mp hprefix)), charsBefore_append h.2, Option.map_map]
      rfl

/-- The search stops at the needle. -/
theorem charsBefore_needle_append (needle y : List Char) :
    charsBefore needle (needle ++ y) = some [] := by
  cases needle with
  | nil => cases y <;> rfl
  | cons c cs =>
    rw [List.cons_append, charsBefore, if_pos]
    exact List.isPrefixOf_iff_prefix.mpr (List.prefix_append (c :: cs) y)

theorem prefix_of_charsBefore : ∀ {cs x : List Char}, charsBefore needle cs = some x → x <+: cs
  | [], x, h => by
      rw [charsBefore] at h
      split at h
      · rw [← Option.some.inj h]
      · exact nomatch h
  | c :: cs, x, h => by
      rw [charsBefore] at h
      split at h
      · rw [← Option.some.inj h]
        exact List.nil_prefix
      · obtain ⟨x, hx, rfl⟩ := Option.map_eq_some_iff.mp h
        exact List.cons_prefix_cons.mpr ⟨rfl, prefix_of_charsBefore hx⟩

/-- **What stands in front of a needle** does not hold it. -/
theorem not_hasInfix_of_charsBefore (hneedle : needle ≠ []) : ∀ {cs x : List Char},
    charsBefore needle cs = some x → hasInfix needle x = false
  | [], x, h => by
      rw [charsBefore, if_neg (by simpa using hneedle)] at h
      exact nomatch h
  | c :: cs, x, h => by
      rw [charsBefore] at h
      split at h
      · rw [← Option.some.inj h, hasInfix]
        simpa using hneedle
      · next hnot =>
        obtain ⟨x, hx, rfl⟩ := Option.map_eq_some_iff.mp h
        rw [hasInfix_cons, not_hasInfix_of_charsBefore hneedle hx, Bool.or_false, Bool.eq_false_iff]
        intro hstart
        rw [List.isPrefixOf_iff_prefix] at hnot hstart
        exact hnot (hstart.trans (List.cons_prefix_cons.mpr ⟨rfl, prefix_of_charsBefore hx⟩))

end Text

/-! ## Reading a marker -/

/-- **What a marker says**: its number, if it has one, its kind and its fields. -/
structure Marking where
  id : Option Nat
  kind : String
  fields : List String
  deriving DecidableEq, Repr

namespace Marking

/-- The number that a part spells; a closing marker leaves the part empty. -/
def idOf? (part : List Char) : Option (Option Nat) :=
  if part.isEmpty then some none
  else if part.all Char.isDigit then some (some (Nat.ofDigitChars 10 part 0))
  else none

/-- What parts between colons say; the last of them is empty. -/
def ofParts? : List (List Char) → Option Marking
  | number :: kind :: fields =>
    if fields.getLast? = some [] then
      (idOf? number).map fun id => ⟨id, String.ofList kind, fields.dropLast.map String.ofList⟩
    else none
  | _ => none

/-- What stands between the start of a marker and the first end of a comment behind it. -/
def body? (s : String) : Option (List Char) :=
  if "/*I:ID".toList.isPrefixOf s.toList then
    charsBefore "*/".toList (s.toList.drop "/*I:ID".toList.length)
  else none

/-- **Reads a marker** at the start of a text, cut at the colons. -/
def read? (s : String) : Option Marking := (body? s).bind fun body => ofParts? (splitChars ':' body)

end Marking

/-- The text holds no colon and no end of a comment. -/
def Text.IsClean (s : String) : Prop := contains s ":" = false ∧ contains s "*/" = false

instance (s : String) : Decidable (IsClean s) := inferInstanceAs (Decidable (_ ∧ _))

/-! ## What is read is clean -/

theorem Text.contains_colon_iff : contains f ":" = true ↔ ':' ∈ f.toList := by
  rw [contains, hasInfix_iff]
  constructor
  · exact fun h => h.mem List.mem_cons_self
  · intro h
    obtain ⟨front, back, hcs⟩ := List.append_of_mem h
    exact ⟨front, back, by rw [hcs, List.append_assoc]; rfl⟩

/-- A part of what stands in front of the end of a comment, between colons. -/
theorem Text.isClean_ofList {body part : List Char} (hbody : hasInfix "*/".toList body = false)
    (hpart : part ∈ splitChars ':' body) : IsClean (String.ofList part) := by
  obtain ⟨hsub, hcolon⟩ := infix_of_mem_splitChars hpart
  have hchars : (String.ofList part).toList = part := String.toList_ofList
  constructor
  · rwa [Bool.eq_false_iff, ne_eq, contains_colon_iff, hchars]
  · rw [contains, hchars, Bool.eq_false_iff, ne_eq, hasInfix_iff]
    exact fun h => Bool.eq_false_iff.mp hbody (hasInfix_iff.mpr (h.trans hsub))

theorem Marking.not_hasInfix_of_body? {s : String} {body : List Char} (h : body? s = some body) :
    hasInfix "*/".toList body = false := by
  rw [body?] at h
  split at h
  · exact not_hasInfix_of_charsBefore (by decide) h
  · exact nomatch h

/-- **A field that was read** holds neither a colon nor the end of a comment. -/
theorem Marking.clean_of_read? {s : String} {marking : Marking} (h : read? s = some marking) :
    ∀ f ∈ marking.fields, IsClean f := by
  obtain ⟨body, hbody, h⟩ := Option.bind_eq_some_iff.mp h
  intro f hf
  rw [ofParts?.eq_def] at h
  split at h
  case h_2 => exact nomatch h
  next number kind fields hparts =>
  split at h
  case isFalse => exact nomatch h
  obtain ⟨id, -, rfl⟩ := Option.map_eq_some_iff.mp h
  obtain ⟨part, hpart, rfl⟩ := List.mem_map.mp hf
  refine isClean_ofList (not_hasInfix_of_body? hbody) ?_
  rw [hparts]
  exact .tail _ (.tail _ (List.mem_of_mem_dropLast hpart))

/-! ## What is clean is read -/

theorem Text.quiet_colon (h : contains f "*/" = false) : Quiet "*/" (f ++ ":") := by
  have hcolon : Closes "*/" ":" := ⟨by decide, quiet_of_clashes (by decide +kernel)⟩
  exact hcolon.quiet_append h

/-- Clean parts, each closed by a colon, are cut apart again. -/
theorem Text.splitChars_join : ∀ {parts : List String}, (∀ f ∈ parts, IsClean f) →
    splitChars ':' (String.join (parts.map (· ++ ":"))).toList = parts.map String.toList ++ [[]]
  | [], _ => rfl
  | f :: parts, h => by
      have hcolon : ':' ∉ f.toList := fun hmem =>
        Bool.eq_false_iff.mp (h f List.mem_cons_self).1 (contains_colon_iff.mpr hmem)
      rw [List.map_cons, String.join_cons, String.toList_append, String.toList_append,
        List.append_assoc]
      exact (splitChars_append hcolon).trans
        (congrArg (f.toList :: ·) (splitChars_join fun g hg => h g (List.mem_cons_of_mem f hg)))

/-- The part of a marker that spells its number. -/
def numberPart (id : Option Nat) : String := (id.map toString).getD ""

theorem isClean_numberPart (id : Option Nat) : IsClean (numberPart id) := by
  cases id with
  | none => exact ⟨rfl, rfl⟩
  | some n =>
    have hdigits : ∀ c ∈ (toString n).toList, c.isDigit = true := fun c hc =>
      isDigit_of_mem_toString hc
    constructor
    · rw [Bool.eq_false_iff, ne_eq, contains_colon_iff]
      exact fun h => absurd (hdigits _ h) (by decide)
    · rw [Bool.eq_false_iff, ne_eq, contains, hasInfix_iff]
      exact fun h => absurd (hdigits _ (h.mem List.mem_cons_self)) (by decide)

theorem Marking.idOf?_numberPart (id : Option Nat) : idOf? (numberPart id).toList = some id := by
  cases id with
  | none => rfl
  | some n =>
    have hdigits : (toString n).toList = Nat.toDigits 10 n := by
      rw [Nat.toString_eq_repr, Nat.toList_repr]
    have hall : (toString n).toList.all Char.isDigit = true :=
      List.all_eq_true.mpr fun c hc => isDigit_of_mem_toString hc
    have hne : ¬ (toString n).toList.isEmpty = true := by
      rw [hdigits, List.isEmpty_iff]
      exact Nat.toDigits_ne_nil
    show idOf? (toString n).toList = some (some n)
    rw [idOf?, if_neg hne, if_pos hall, hdigits, Nat.ofDigitChars_ten_toDigits]

/-- **The parts of a marker**, each closed by a colon. -/
def markerParts (id : Option Nat) (kind : String) (fields : List String) : String :=
  String.join ((numberPart id :: kind :: fields).map (· ++ ":"))

theorem marker_eq_parts (id : Option Nat) (kind : String) (fields : List String) :
    marker id kind fields = "/*I:ID" ++ (markerParts id kind fields ++ "*/") := by
  rw [marker, markerParts, List.map_cons, List.map_cons, String.join_cons, String.join_cons,
    numberPart]
  simp only [String.append_assoc]

/-- A field is a stretch of the parts. -/
theorem infix_markerParts (hf : f ∈ fields) :
    f.toList <:+: (markerParts id kind fields).toList := by
  have hmem : f ++ ":" ∈ (numberPart id :: kind :: fields).map (· ++ ":") :=
    List.mem_map_of_mem (.tail _ (.tail _ hf))
  obtain ⟨front, back, hparts⟩ := List.append_of_mem hmem
  rw [markerParts, hparts, String.join_append, String.join_cons, String.toList_append,
    String.toList_append, String.toList_append]
  exact ⟨(String.join front).toList, ":".toList ++ (String.join back).toList, by
    simp only [List.append_assoc]⟩

/-- What stands in front of the first end of a comment. -/
theorem Marking.body?_of_quiet {s : String} (h : Quiet "*/" s) (after : String) :
    body? ("/*I:ID" ++ (s ++ "*/") ++ after) = some s.toList := by
  have hbody := charsBefore_append (h.silent ("*/".toList ++ after.toList))
  rw [charsBefore_needle_append, Option.map_some, List.append_nil] at hbody
  rw [body?]
  simp only [String.toList_append, List.append_assoc]
  rw [if_pos (List.isPrefixOf_iff_prefix.mpr (List.prefix_append _ _)), List.drop_left]
  exact hbody

/-- **A marker ends with the first end of a comment** behind its start exactly when no field holds
one. -/
theorem body?_marker_iff (hkind : IsClean kind) (after : String) :
    Marking.body? (marker id kind fields ++ after) = some (markerParts id kind fields).toList ↔
      ∀ f ∈ fields, contains f "*/" = false := by
  constructor
  · intro h f hf
    rw [contains, Bool.eq_false_iff, ne_eq, hasInfix_iff]
    exact fun hsub => Bool.eq_false_iff.mp (Marking.not_hasInfix_of_body? h)
      (hasInfix_iff.mpr (hsub.trans (infix_markerParts hf)))
  · intro h
    have hquiet : Quiet "*/" (markerParts id kind fields) := quiet_join fun s hs => by
      obtain ⟨f, hf, rfl⟩ := List.mem_map.mp hs
      rcases List.mem_cons.mp hf with rfl | hf
      · exact quiet_colon (isClean_numberPart id).2
      · rcases List.mem_cons.mp hf with rfl | hf
        · exact quiet_colon hkind.2
        · exact quiet_colon (h f hf)
    rw [marker_eq_parts]
    exact Marking.body?_of_quiet hquiet after

/-- **A marker reads back** as it was written exactly when its fields are clean. -/
theorem read?_marker_iff (hkind : IsClean kind) (after : String) :
    Marking.read? (marker id kind fields ++ after) = some ⟨id, kind, fields⟩ ↔
      ∀ f ∈ fields, IsClean f := by
  refine ⟨fun h => Marking.clean_of_read? h, fun h => ?_⟩
  have hparts : Marking.ofParts? ((numberPart id :: kind :: fields).map String.toList ++ [[]]) =
      some ⟨id, kind, fields⟩ := by
    rw [List.map_cons, List.map_cons, List.cons_append, List.cons_append, Marking.ofParts?,
      List.getLast?_concat, if_pos rfl, List.dropLast_concat, Marking.idOf?_numberPart, List.map_map]
    simp
  have hclean : ∀ f ∈ numberPart id :: kind :: fields, IsClean f :=
    List.forall_mem_cons.mpr ⟨isClean_numberPart id, List.forall_mem_cons.mpr ⟨hkind, h⟩⟩
  rw [Marking.read?, (body?_marker_iff hkind after).mpr fun f hf => (h f hf).2]
  exact (congrArg Marking.ofParts? (splitChars_join hclean)).trans hparts

end ProbeWeaver
