import Mathlib.Data.List.Forall2
import Mathlib.Data.Option.Basic
import ProbeWeaver.Proofs.Text.Slice
import ProbeWeaver.Proofs.Typing.Unwinding

/-!
# Proofs/Typing/Sketches — every type is spelled by some declarator

A `Sketch` is a piece of text with the syntax tree over it, wherever the piece may stand.  The
sketch of a declarator is drawn from the type, from the inside out, and the tree over it spells the
type (`exists_spells`): so every type of which the parameters have names that can be spelled has a
declarator for every name, and one without a name.

* `Declarator.unwinds` — declarators unwind to the type that they spell, and every type has some.
-/

namespace ProbeWeaver

/-- **A piece of text with the tree over it**: a first text, the parts behind it, and the blanks
before the next piece. -/
inductive Sketch where
  | node (kind : Kind) (field : Option Field) (first : String) (parts : List Sketch) (gap : String)

namespace CType

/-- The name below every level of a type. -/
def baseName (t : CType) : String := t.base.name?.getD ""

theorem base_eq (t : CType) : t.base = .named t.baseName t.base.qualifiers := by
  induction t using CType.base.induct with
  | case1 => rfl
  | case2 _ _ ih | case3 _ _ ih | case4 _ _ ih => exact ih

mutual

/-- **Names that can be spelled**: those of the parameters have no blanks around them. -/
def namesWords : CType → Bool
  | .named _ _ => true
  | .pointer pointee _ => pointee.namesWords
  | .array element _ => element.namesWords
  | .function result params => result.namesWords && allNameWords params

/-- Each type is that of a parameter with such a name. -/
def allNameWords : List CType → Bool
  | [] => true
  | t :: ts => decide (Text.trim t.baseName = t.baseName) && t.namesWords && allNameWords ts

end

end CType

namespace Sketch

variable {source : String} {n : Node} {s : Sketch} {k : Kind} {f : Option Field}
  {first blanks : String} {parts : List Sketch}

def kind : Sketch → Kind
  | node k _ _ _ _ => k

def field : Sketch → Option Field
  | node _ f _ _ _ => f

def gap : Sketch → String
  | node _ _ _ _ g => g

/-- The piece in a field. -/
def filling (f : Option Field) : Sketch → Sketch
  | node k _ first parts g => node k f first parts g

@[simp] theorem kind_filling (s : Sketch) : (s.filling f).kind = s.kind := by cases s; rfl

@[simp] theorem field_filling (s : Sketch) : (s.filling f).field = f := by cases s; rfl

@[simp] theorem filling_field (s : Sketch) : s.filling s.field = s := by cases s; rfl

mutual

/-- The text of a piece. -/
def text : Sketch → String
  | node _ _ first parts _ => first ++ texts parts

/-- The pieces in turn, with the blanks behind each. -/
def texts : List Sketch → String
  | [] => ""
  | p :: ps => p.text ++ (p.gap ++ texts ps)

end

mutual

/-- The tree over a piece that starts at a byte. -/
def tree : Sketch → Nat → Tree
  | node k f first parts _, start =>
    .node k f ⟨start, start + (first ++ texts parts).utf8ByteSize⟩ false
      (trees parts (start + first.utf8ByteSize))

/-- The trees over pieces in turn. -/
def trees : List Sketch → Nat → List Tree
  | [], _ => []
  | p :: ps, start => p.tree start :: trees ps (start + (p.text ++ p.gap).utf8ByteSize)

end

/-- **A place of the tree over a piece**, as it stands in the source. -/
def Covers (source : String) (n : Node) (s : Sketch) : Prop :=
  ∃ front back, source = front ++ s.text ++ back ∧ n.tree = s.tree front.utf8ByteSize

theorem Covers.kind_eq (h : Covers source n s) : n.kind = s.kind := by
  obtain ⟨front, back, -, htree⟩ := h
  cases s
  rw [Node.kind, htree]
  rfl

theorem Covers.field_eq (h : Covers source n s) : n.tree.field = s.field := by
  obtain ⟨front, back, -, htree⟩ := h
  cases s
  rw [htree]
  rfl

/-- A place spells its piece. -/
theorem Covers.text_eq (h : Covers source n s) : n.text source = s.text := by
  obtain ⟨front, back, rfl, htree⟩ := h
  have hslice := Text.slice_append front s.text back
  rw [String.utf8ByteSize_append] at hslice
  cases s
  rw [Node.text, Node.start, Node.stop, htree]
  exact hslice

theorem covers_trees : ∀ (parts : List Sketch) (front back : String),
    source = front ++ texts parts ++ back →
      List.Forall₂ (fun t p => ∀ n : Node, n.tree = t → Covers source n p)
        (trees parts front.utf8ByteSize) parts
  | [], _, _, _ => .nil
  | p :: ps, front, back, h => by
      refine .cons (fun n hn => ⟨front, p.gap ++ texts ps ++ back, ?_, hn⟩) ?_
      · rw [h, texts]
        simp only [String.append_assoc]
      · rw [← String.utf8ByteSize_append]
        refine covers_trees ps _ back ?_
        rw [h, texts]
        simp only [String.append_assoc]

/-- The trees right below a place. -/
theorem map_tree_children (n : Node) : n.children.map Node.tree = n.tree.children := by
  refine List.ext_getElem (by rw [List.length_map, Node.children, List.length_mapIdx]) ?_
  intro i _ _
  rw [List.getElem_map]
  simp only [Node.children, List.getElem_mapIdx]
  rfl

/-- **The places right below** cover the parts in turn. -/
theorem Covers.children (h : Covers source n (.node k f first parts blanks)) :
    List.Forall₂ (Covers source) n.children parts := by
  obtain ⟨front, back, hsource, htree⟩ := h
  have htrees : n.children.map Node.tree = trees parts (front ++ first).utf8ByteSize := by
    rw [map_tree_children, htree, String.utf8ByteSize_append]
    rfl
  have hcovers := covers_trees parts (front ++ first) back
    (show source = _ by rw [hsource, text]; simp only [String.append_assoc])
  rw [← htrees, List.forall₂_map_left_iff] at hcovers
  exact hcovers.imp fun c p hc => hc c rfl

/-! ## Questions about pieces -/

/-- Items side by side are found side by side. -/
theorem rel_find? {α β : Type} {R : α → β → Prop} {as : List α} {bs : List β} {p : α → Bool}
    {q : β → Bool} (h : List.Forall₂ R as bs) (hpq : ∀ a b, R a b → p a = q b) :
    Option.Rel R (as.find? p) (bs.find? q) := by
  induction h with
  | nil => exact .none
  | @cons a b _ _ hab _ ih =>
    rw [List.find?_cons, List.find?_cons, hpq a b hab]
    cases q b with
    | true => exact .some hab
    | false => exact ih

/-- The place that fills a field covers the part that does. -/
theorem Covers.field? (h : Covers source n (.node k f first parts blanks)) (g : Field) :
    Option.Rel (Covers source) (n.field? g) (parts.find? (·.field == some g)) :=
  rel_find? h.children fun _ _ hc => by rw [hc.field_eq]

/-- The first construct below covers the first part that is one. -/
theorem Covers.firstNamed? (h : Covers source n (.node k f first parts blanks)) :
    Option.Rel (Covers source) n.firstNamed?
      (parts.find? fun p => p.kind.isNamed && p.kind != .comment) := by
  rw [Node.firstNamed?, Node.namedChildren, List.head?_filter]
  exact rel_find? h.children fun _ _ hc => by rw [Node.isNamed, hc.kind_eq]

/-- The constructs of a kind below cover the parts of the kind. -/
theorem Covers.ofKind (h : Covers source n (.node k f first parts blanks)) (kind : Kind)
    (hnamed : kind.isNamed = true ∧ kind ≠ .comment) :
    List.Forall₂ (Covers source) (n.namedChildren.filter (·.kind == kind))
      (parts.filter (·.kind == kind)) := by
  have hkeeps (c : Node) :
      (c.kind == kind && (c.isNamed && c.kind != .comment)) = (c.kind == kind) := by
    rw [Bool.and_eq_left_iff_imp, beq_iff_eq]
    rintro rfl
    rw [Node.isNamed, hnamed.1, Bool.true_and, bne_iff_ne]
    exact hnamed.2
  rw [Node.namedChildren, List.filter_filter, funext hkeeps]
  exact List.rel_filter
    (fun _ _ hc => iff_of_eq (congrArg (fun k => (k == kind) = true) hc.kind_eq)) h.children

end Sketch

/-! ## Sketches of declarators -/

namespace Sketch

open Declarator (Level Enclosed Spells SpellsEach)

/-- A word of the text that is a node by itself. -/
def leaf (k : Kind) (f : Option Field) (word blanks : String) : Sketch := .node k f word [] blanks

/-- A token. -/
def token (word : String) : Sketch := leaf (.token word) none word ""

/-- The words of qualifiers. -/
def qualifiers (q : Qualifiers) : List Sketch :=
  (if q.isConst then [leaf .typeQualifier none "const" " "] else []) ++
    (if q.isVolatile then [leaf .typeQualifier none "volatile" " "] else [])

/-- The inner declarator, as a part of the one around it. -/
def inside (inner : Option Sketch) : List Sketch :=
  (inner.map (·.filling (some .declarator))).toList

/-- Parentheses around a declarator. -/
def parens (isAbstract : Bool) (s : Sketch) : Sketch :=
  .node (Level.parentheses.kind isAbstract) none "" [token "(", s, token ")"] ""

/-- A pointer. -/
def star (isAbstract : Bool) (q : Qualifiers) (inner : Option Sketch) : Sketch :=
  .node (Level.pointer.kind isAbstract) none "" (token "*" :: (qualifiers q ++ inside inner)) ""

/-- A pointer to a type, in parentheses where it is applied to an array or a function. -/
def starAround (isAbstract : Bool) (pointee : CType) (q : Qualifiers) (inner : Option Sketch) :
    Sketch :=
  if pointee.bindsTighter then parens isAbstract (star isAbstract q inner)
  else star isAbstract q inner

/-- An array. -/
def brackets (isAbstract : Bool) (size : Option String) (inner : Option Sketch) : Sketch :=
  .node (Level.array.kind isAbstract) none ""
    (inside inner ++ (token "[" :: ((size.map (leaf .numberLiteral (some .size) · "")).toList ++
      [token "]"]))) ""

/-- A function. -/
def call (isAbstract : Bool) (params : List Sketch) (inner : Option Sketch) : Sketch :=
  .node (Level.function.kind isAbstract) none ""
    (inside inner ++ [.node (.other "parameter_list") (some .parameters) ""
      (token "(" :: (params.intersperse (token ",") ++ [token ")"])) ""]) ""

/-- A parameter without a name. -/
def parameter (name : String) (q : Qualifiers) (declarator : Option Sketch) : Sketch :=
  .node .parameterDeclaration none "" (qualifiers q ++
    (leaf .typeIdentifier (some .type) name " " :: inside declarator)) ""

mutual

/-- **The sketch of a declarator** of a type, around an inner one. -/
def ofType (isAbstract : Bool) : CType → Option Sketch → Option Sketch
  | .named _ _, inner => inner
  | .pointer pointee q, inner =>
    ofType isAbstract pointee (some (starAround isAbstract pointee q inner))
  | .array element size, inner => ofType isAbstract element (some (brackets isAbstract size inner))
  | .function result params, inner =>
    ofType isAbstract result (some (call isAbstract (ofParameters params) inner))

/-- The sketches of parameters without names. -/
def ofParameters : List CType → List Sketch
  | [] => []
  | t :: ts => parameter t.baseName t.base.qualifiers (ofType true t none) :: ofParameters ts

end

/-! ## The trees over the sketches -/

/-- A place over a piece, whatever field it fills. -/
def Stands (source : String) (n : Node) (s : Sketch) : Prop :=
  ∃ f, Covers source n (s.filling f)

variable {isAbstract : Bool} {q : Qualifiers} {inner : Option Sketch} {outer : Option Node}

/-- A piece that may stand in a declarator: it is no qualifier. -/
def Inner (inner : Option Sketch) : Prop := ∀ s ∈ inner, s.kind ≠ .typeQualifier

theorem find?_inside : (inside inner).find? (·.field == some .declarator) =
    inner.map (·.filling (some .declarator)) := by
  cases inner <;> simp [inside]

theorem find?_inside_of_ne {g : Field} (hg : g ≠ .declarator) :
    (inside inner).find? (·.field == some g) = none := by
  cases inner with
  | none => rfl
  | some s => simp [inside, hg.symm]

theorem find?_qualifiers (g : Field) : (qualifiers q).find? (·.field == some g) = none := by
  obtain ⟨isConst, isVolatile⟩ := q
  cases isConst <;> cases isVolatile <;> rfl

/-- **The declarator inside** stands over the inner piece. -/
theorem Covers.inside (h : Covers source n (.node k f first parts blanks))
    (hinside : parts.find? (·.field == some .declarator) =
      inner.map (·.filling (some .declarator))) :
    Option.Rel (Stands source) (n.field? .declarator) inner := by
  have hrel := h.field? .declarator
  rw [hinside] at hrel
  generalize n.field? .declarator = o at hrel
  cases inner with
  | none => cases hrel with | none => exact .none
  | some s => cases hrel with | some h => exact .some ⟨_, h⟩

/-- The words of the qualifiers among pieces. -/
def words (parts : List Sketch) : List String := (parts.filter (·.kind == .typeQualifier)).map text

theorem words_append (a b : List Sketch) : words (a ++ b) = words a ++ words b := by
  rw [words, List.filter_append, List.map_append, words, words]

theorem words_inside (hinner : Inner inner) : words (inside inner) = [] := by
  cases inner with
  | none => rfl
  | some s =>
    have hkind : ((s.filling (some .declarator)).kind == .typeQualifier) = false := by
      rw [kind_filling, beq_eq_false_iff_ne]
      exact hinner s rfl
    rw [words, show Sketch.inside (some s) = [s.filling (some .declarator)] from rfl,
      List.filter_cons_of_neg (by rw [hkind]; exact Bool.false_ne_true)]
    rfl

/-- **The qualifiers** of a place are those among its parts. -/
theorem Covers.qualifiersBelow_eq (h : Covers source n (.node k f first parts blanks))
    (hparts : words parts = words (qualifiers q)) : Declarator.qualifiersBelow source n = q := by
  have hwords : (n.namedChildren.filter (·.kind == .typeQualifier)).map (·.text source) =
      words (qualifiers q) := by
    rw [← hparts, words, ← List.forall₂_eq_eq_eq, List.forall₂_map_left_iff,
      List.forall₂_map_right_iff]
    exact (h.ofKind .typeQualifier ⟨rfl, by decide⟩).imp fun _ _ hc => hc.text_eq
  rw [Declarator.qualifiersBelow, hwords]
  obtain ⟨isConst, isVolatile⟩ := q
  cases isConst <;> cases isVolatile <;> decide

/-! ### Levels -/

theorem inner_level {level : Level} :
    Inner (some (.node (level.kind isAbstract) f first parts blanks)) := by
  intro s hs
  obtain rfl := Option.some.inj hs
  cases isAbstract <;> cases level <;> exact fun h => nomatch h

/-- **A place over a pointer**: its kind, its qualifiers and what is inside. -/
theorem Stands.star (hinner : Inner inner) (h : Stands source n (star isAbstract q inner)) :
    n.kind = Level.pointer.kind isAbstract ∧ Declarator.qualifiersBelow source n = q ∧
      Option.Rel (Stands source) (n.field? .declarator) inner := by
  obtain ⟨f, h⟩ := h
  refine ⟨h.kind_eq.trans (kind_filling _), h.qualifiersBelow_eq ?_, h.inside ?_⟩
  · rw [← List.singleton_append, words_append, words_append, words_inside hinner, List.append_nil]
    rfl
  · rw [List.find?_cons_of_neg Bool.false_ne_true, List.find?_append, find?_qualifiers,
      Option.none_or, find?_inside]

/-- **A place over an array**: its kind, its size and what is inside. -/
theorem Stands.brackets {size : Option String}
    (h : Stands source n (brackets isAbstract size inner)) :
    n.kind = Level.array.kind isAbstract ∧ (n.field? .size).map (·.text source) = size ∧
      Option.Rel (Stands source) (n.field? .declarator) inner := by
  obtain ⟨f, h⟩ := h
  have hsize := h.field? .size
  refine ⟨h.kind_eq.trans (kind_filling _), ?_, h.inside ?_⟩
  · rw [List.find?_append, find?_inside_of_ne (by decide), Option.none_or,
      List.find?_cons_of_neg Bool.false_ne_true] at hsize
    generalize n.field? .size = o at hsize
    cases size with
    | none => cases hsize with | none => rfl
    | some s =>
      cases hsize with
      | some hs =>
        rw [Option.map_some, hs.text_eq]
        exact congrArg some (String.append_empty)
  · rw [List.find?_append, find?_inside]
    cases inner with
    | none => cases size <;> rfl
    | some s => rfl

/-- **A place over parentheses**: its kind and what is inside. -/
theorem Stands.parens {s : Sketch} (hs : (s.kind.isNamed && s.kind != .comment) = true)
    (h : Stands source n (parens isAbstract s)) :
    n.kind = Level.parentheses.kind isAbstract ∧
      ∃ m, n.firstNamed? = some m ∧ Stands source m s := by
  obtain ⟨f, h⟩ := h
  refine ⟨h.kind_eq.trans (kind_filling _), ?_⟩
  have hfirst := h.firstNamed?
  rw [List.find?_cons_of_neg (by decide), List.find?_cons_of_pos (by exact hs)] at hfirst
  generalize n.firstNamed? = o at hfirst
  cases hfirst with
  | some hm => exact ⟨_, rfl, s.field, (filling_field s).symm ▸ hm⟩

theorem inner_brackets {size : Option String} : Inner (some (brackets isAbstract size inner)) :=
  inner_level

theorem inner_call {params : List Sketch} : Inner (some (call isAbstract params inner)) :=
  inner_level

theorem inner_starAround {pointee : CType} :
    Inner (some (starAround isAbstract pointee q inner)) := by
  rw [Sketch.starAround]
  split <;> exact inner_level

/-- **A place over a pointer in its parentheses**, if it needs any. -/
theorem Stands.starAround {pointee : CType}
    (h : Stands source n (starAround isAbstract pointee q inner)) :
    ∃ m, Stands source m (Sketch.star isAbstract q inner) ∧ Enclosed isAbstract m n ∧
      (pointee.bindsTighter = true → n.kind ≠ Level.pointer.kind isAbstract) := by
  rw [Sketch.starAround] at h
  split at h
  · obtain ⟨hkind, m, hfirst, hm⟩ := h.parens (by cases isAbstract <;> rfl)
    refine ⟨m, hm, .parens .bare hkind hfirst, fun _ => ?_⟩
    rw [hkind]
    cases isAbstract <;> decide
  · next hloose => exact ⟨n, h, .bare, fun htight => absurd htight hloose⟩

/-- Between commas stand the parameters. -/
theorem filter_intersperse : ∀ {params : List Sketch},
    (∀ p ∈ params, p.kind = .parameterDeclaration) →
      (params.intersperse (token ",")).filter (·.kind == .parameterDeclaration) = params
  | [], _ => rfl
  | [p], h => List.filter_cons_of_pos (beq_iff_eq.mpr (h p (List.mem_singleton_self p)))
  | p :: p' :: ps, h => by
      rw [List.intersperse,
        List.filter_cons_of_pos (by exact beq_iff_eq.mpr (h p List.mem_cons_self)),
        List.filter_cons_of_neg (by decide),
        filter_intersperse fun q hq => h q (List.mem_cons_of_mem p hq)]
      exact fun h => nomatch h

/-- **A place over a function**: its kind, its parameters and what is inside. -/
theorem Stands.call {params : List Sketch} (hparams : ∀ p ∈ params, p.kind = .parameterDeclaration)
    (h : Stands source n (call isAbstract params inner)) :
    n.kind = Level.function.kind isAbstract ∧
      (∃ list, n.field? .parameters = some list ∧
        List.Forall₂ (Covers source) (Declarator.parameters list) params) ∧
        Option.Rel (Stands source) (n.field? .declarator) inner := by
  obtain ⟨f, h⟩ := h
  have hlist := h.field? .parameters
  refine ⟨h.kind_eq.trans (kind_filling _), ?_, h.inside ?_⟩
  · rw [List.find?_append, find?_inside_of_ne (by decide), Option.none_or,
      List.find?_cons_of_pos (by rfl)] at hlist
    generalize n.field? .parameters = o at hlist
    cases hlist with
    | some hlist =>
      refine ⟨_, rfl, ?_⟩
      have hkept := hlist.ofKind .parameterDeclaration ⟨rfl, by decide⟩
      rwa [List.filter_cons_of_neg (by decide), List.filter_append, filter_intersperse hparams,
        List.filter_cons_of_neg (by decide), List.filter_nil, List.append_nil] at hkept
  · rw [List.find?_append, find?_inside]
    cases inner <;> rfl

/-- **A parameter has the base** of its piece, and what is inside. -/
theorem Covers.parameter {name : String} (hname : Text.trim name = name) (hinner : Inner inner)
    (h : Covers source n (parameter name q inner)) :
    Declarator.HasBase source n (.named name q) ∧
      Option.Rel (Stands source) (n.field? .declarator) inner := by
  have hspec := h.field? .type
  have hqualifiers : Declarator.qualifiersBelow source n = q := by
    refine h.qualifiersBelow_eq ?_
    rw [words_append, ← List.singleton_append, words_append, words_inside hinner, List.append_nil]
    exact List.append_nil _
  refine ⟨?_, h.inside ?_⟩
  · rw [List.find?_append, find?_qualifiers, Option.none_or,
      List.find?_cons_of_pos (by rfl)] at hspec
    cases hfield : n.field? .type with
    | none => rw [hfield] at hspec; cases hspec
    | some spec =>
      rw [hfield] at hspec
      cases hspec with
      | some hspec =>
        refine ⟨spec, name, hfield, ?_, by rw [hqualifiers]⟩
        have htext : spec.text source = name := hspec.text_eq.trans (String.append_empty)
        have hkind : spec.kind = .typeIdentifier := hspec.kind_eq
        rw [Declarator.typeOfSpecifier, hkind]
        dsimp only
        rw [htext, hname]
  · rw [List.find?_append, find?_qualifiers, Option.none_or,
      List.find?_cons_of_neg Bool.false_ne_true, find?_inside]

theorem kind_of_mem_ofParameters : ∀ {params : List CType}, ∀ p ∈ ofParameters params,
    p.kind = .parameterDeclaration
  | [], p, h => nomatch h
  | t :: ts, p, h => by
      rcases List.mem_cons.mp h with rfl | h
      · rfl
      · exact kind_of_mem_ofParameters p h

theorem inner_ofType : ∀ (t : CType) {inner : Option Sketch}, Inner inner →
    Inner (ofType isAbstract t inner)
  | .named _ _, _, h => by rwa [ofType]
  | .pointer pointee _, _, _ => by
      rw [ofType]
      exact inner_ofType pointee inner_starAround
  | .array element _, _, _ => by
      rw [ofType]
      exact inner_ofType element inner_brackets
  | .function result _, _, _ => by
      rw [ofType]
      exact inner_ofType result inner_call

mutual

/-- **The tree over the sketch of a type spells it.** -/
theorem exists_spells : ∀ (t : CType) {isAbstract : Bool} {inner : Option Sketch}
    {outer : Option Node}, t.namesWords = true → Inner inner →
      Option.Rel (Stands source) outer (ofType isAbstract t inner) →
        ∃ I, Option.Rel (Stands source) I inner ∧ Spells source isAbstract t I outer
  | .named name q, isAbstract, inner, outer, _, _, h => ⟨outer, h, .named⟩
  | .pointer pointee q, isAbstract, inner, outer, ht, hinner, h => by
      rw [CType.namesWords] at ht
      rw [ofType] at h
      obtain ⟨I, hI, hspells⟩ := exists_spells pointee ht inner_starAround h
      cases hI with
      | some hlevel =>
        obtain ⟨m, hm, henclosed, hparens⟩ := hlevel.starAround
        obtain ⟨hkind, rfl, hinside⟩ := hm.star hinner
        exact ⟨_, hinside, .pointer hkind henclosed
          (fun htight heq => hparens htight (heq ▸ hkind)) hspells⟩
  | .array element size, isAbstract, inner, outer, ht, hinner, h => by
      rw [CType.namesWords] at ht
      rw [ofType] at h
      obtain ⟨I, hI, hspells⟩ := exists_spells element ht inner_brackets h
      cases hI with
      | some hlevel =>
        obtain ⟨hkind, rfl, hinside⟩ := hlevel.brackets
        exact ⟨_, hinside, .array hkind .bare hspells⟩
  | .function result params, isAbstract, inner, outer, ht, hinner, h => by
      rw [CType.namesWords, Bool.and_eq_true_iff] at ht
      rw [ofType] at h
      obtain ⟨I, hI, hspells⟩ := exists_spells result ht.1 inner_call h
      cases hI with
      | some hlevel =>
        obtain ⟨hkind, ⟨list, hlist, hparams⟩, hinside⟩ := hlevel.call kind_of_mem_ofParameters
        exact ⟨_, hinside, .function hkind hlist (.each (spellsEach_of_covers params ht.2 hparams))
          .bare hspells⟩

/-- The trees over the sketches of parameters spell them. -/
theorem spellsEach_of_covers : ∀ (params : List CType) {ps : List Node},
    CType.allNameWords params = true → List.Forall₂ (Covers source) ps (ofParameters params) →
      SpellsEach source params ps
  | [], _, _, .nil => .nil
  | t :: params, _, ht, .cons hp hps => by
      rw [CType.allNameWords, Bool.and_eq_true_iff, Bool.and_eq_true_iff, decide_eq_true_iff] at ht
      obtain ⟨⟨hname, ht⟩, hrest⟩ := ht
      have hnone : Inner none := fun _ h => nomatch h
      obtain ⟨hbase, hinside⟩ := hp.parameter hname (inner_ofType t hnone)
      obtain ⟨I, hI, hspells⟩ := exists_spells t ht hnone hinside
      cases hI with
      | none =>
        exact .unnamed (t.base_eq ▸ hbase) hspells (spellsEach_of_covers params hrest hps)

end

theorem exists_ofType_eq (isAbstract : Bool) : ∀ (t : CType) (s : Sketch),
    ∃ s', ofType isAbstract t (some s) = some s'
  | .named _ _, s => ⟨s, by rw [ofType]⟩
  | .pointer pointee _, _ => by
      rw [ofType]
      exact exists_ofType_eq isAbstract pointee _
  | .array element _, _ => by
      rw [ofType]
      exact exists_ofType_eq isAbstract element _
  | .function result _, _ => by
      rw [ofType]
      exact exists_ofType_eq isAbstract result _

/-- The text of a piece, with the tree over it. -/
theorem stands_root (s : Sketch) : Stands s.text (.root (s.tree 0)) s :=
  ⟨s.field, "", "", by rw [filling_field, String.empty_append, String.append_empty], by
    rw [filling_field]; rfl⟩

end Sketch

namespace Declarator

/-- **Every type has a declarator** for every name. -/
theorem exists_declares {t : CType} (ht : t.namesWords = true) (name : String) :
    ∃ source n outer, n.text source = name ∧ Declares source t n outer := by
  obtain ⟨s, hs⟩ := Sketch.exists_ofType_eq false t (.leaf .identifier none name "")
  have hinner : Sketch.Inner (some (.leaf .identifier none name "")) := by
    intro s hs
    obtain rfl := Option.some.inj hs
    exact fun h => nomatch h
  obtain ⟨I, hI, hspells⟩ := Sketch.exists_spells t ht hinner
    (hs ▸ Option.Rel.some (Sketch.stands_root s))
  cases hI with
  | @some n _ hn =>
    obtain ⟨f, hn⟩ := hn
    refine ⟨s.text, n, _, hn.text_eq.trans String.append_empty, ?_, n, .bare, _, hspells, .inl rfl⟩
    rw [show n.kind = .identifier from hn.kind_eq]
    decide

/-- **Every type has a declarator without a name**, or needs none. -/
theorem exists_abstract {t : CType} (ht : t.namesWords = true) :
    ∃ source outer, Spells source true t none outer := by
  have hinner : Sketch.Inner none := fun _ h => nomatch h
  have hstands : ∃ source outer,
      Option.Rel (Sketch.Stands source) outer (Sketch.ofType true t none) := by
    cases Sketch.ofType true t none with
    | none => exact ⟨"", none, .none⟩
    | some s => exact ⟨s.text, some _, .some (Sketch.stands_root s)⟩
  obtain ⟨source, outer, houter⟩ := hstands
  obtain ⟨I, hI, hspells⟩ := Sketch.exists_spells t ht hinner houter
  cases hI with
  | none => exact ⟨source, outer, hspells⟩

/-- **Declarators unwind to the type that they spell.**  For every type with parameters as functions
take them, whatever declarator of it is built around a name, with any parentheses and an initializer
or none: to peel it from the base type gives the name and the type; without a name it gives the type.
And there are such declarators, for every name, if the types of the parameters have names that can
be spelled. -/
theorem unwinds {t : CType} (ht : t.isAdjusted = true) :
    (∀ source n outer, Declares source t n outer →
      peelNamed? source outer t.base = some (n, t)) ∧
      (∀ source outer, Spells source true t none outer →
        peelOptional source outer t.base = (none, t)) ∧
        (t.namesWords = true →
          (∀ name, ∃ source n outer, n.text source = name ∧ Declares source t n outer) ∧
            ∃ source outer, Spells source true t none outer) :=
  ⟨fun _ _ _ h => peelNamed?_of_declares ht h, fun _ _ h => peelOptional_of_abstract ht h,
    fun hnames => ⟨exists_declares hnames, exists_abstract hnames⟩⟩

/-- The type of `f` in `const char *(*f[3])(int (*const)[4], long)`. -/
def handlersType : CType :=
  .array (.pointerTo (.function (.pointerTo (.named "char" ⟨true, false⟩))
    [.pointer (.array .int (some "4")) ⟨true, false⟩, .plain "long"])) (some "3")

/-- An array of pointers to functions, one of them with a pointer to an array for a parameter. -/
theorem exists_unwound_handlers :
    (∃ source n outer, n.text source = "f" ∧ Declares source handlersType n outer ∧
      peelNamed? source outer (.named "char" ⟨true, false⟩) = some (n, handlersType)) ∧
      ∃ source outer, Spells source true handlersType none outer ∧
        peelOptional source outer (.named "char" ⟨true, false⟩) = (none, handlersType) := by
  obtain ⟨hnamed, habstract, hexists⟩ :=
    unwinds (show handlersType.isAdjusted = true by decide +kernel)
  obtain ⟨hdeclares, source, outer, houter⟩ := hexists (by decide +kernel)
  obtain ⟨source', n, outer', hn, hdeclared⟩ := hdeclares "f"
  exact ⟨⟨source', n, outer', hn, hdeclared, hnamed _ _ _ hdeclared⟩,
    source, outer, houter, habstract _ _ houter⟩

end Declarator

end ProbeWeaver
