import ProbeWeaver.Proofs.Text.Parentheses
import ProbeWeaver.Proofs.Text.Parts
import ProbeWeaver.Proofs.Typing.Sketches

/-!
# Proofs/Typing/Legibility — spellings that tell the type

The declarator of a type is its levels spelled one around the other, the one next to the named type
at its base outermost (`CType.toList_render`).  So that level shows at the ends of the declarator: a
star in front, or a bracket or a parenthesis behind; and what is left is the declarator of the rest.

* `CType.render_eq_iff` — two types that are legible are spelled alike only if they are the same.
-/

namespace ProbeWeaver

open Text (IsNested commaList splitChars)

namespace CType

/-! ## Levels -/

/-- **A level of a type** around the named type at its base. -/
inductive Level where
  | pointer (qualifiers : Qualifiers)
  | array (size : Option String)
  | function (params : List CType)

/-- The type with one more level. -/
def Level.around (t : CType) : Level → CType
  | pointer q => .pointer t q
  | array size => .array t size
  | function params => .function t params

/-- The parameters of a level. -/
def Level.params : Level → List CType
  | pointer _ | array _ => []
  | function params => params

/-- **The levels of a type**, the one next to its base first. -/
def levels : CType → List Level
  | .named _ _ => []
  | .pointer pointee q => pointee.levels ++ [.pointer q]
  | .array element size => element.levels ++ [.array size]
  | .function result params => result.levels ++ [.function params]

/-- A type is its base and the levels around it. -/
theorem foldl_levels (t : CType) : t.levels.foldl Level.around t.base = t := by
  fun_induction levels t with
  | case1 => rfl
  | case2 pointee q ih => rw [base, List.foldl_append, ih]; rfl
  | case3 element size ih => rw [base, List.foldl_append, ih]; rfl
  | case4 result params ih => rw [base, List.foldl_append, ih]; rfl

section Induction

variable {P : CType → Prop}

mutual

theorem ofParams (h : ∀ t : CType, (∀ l ∈ t.levels, ∀ p ∈ l.params, P p) → P t) :
    ∀ t : CType, ∀ l ∈ t.levels, ∀ p ∈ l.params, P p
  | .named _ _ => nofun
  | .pointer pointee q => fun l hl => by
      rcases List.mem_append.mp hl with hl | hl
      · exact ofParams h pointee l hl
      · rw [List.mem_singleton.mp hl]; exact nofun
  | .array element size => fun l hl => by
      rcases List.mem_append.mp hl with hl | hl
      · exact ofParams h element l hl
      · rw [List.mem_singleton.mp hl]; exact nofun
  | .function result params => fun l hl => by
      rcases List.mem_append.mp hl with hl | hl
      · exact ofParams h result l hl
      · rw [List.mem_singleton.mp hl]; exact ofEach h params

theorem ofEach (h : ∀ t : CType, (∀ l ∈ t.levels, ∀ p ∈ l.params, P p) → P t) :
    ∀ ts : List CType, ∀ t ∈ ts, P t
  | [] => nofun
  | t :: ts => fun u hu => by
      rcases List.mem_cons.mp hu with heq | hu
      · rw [heq]; exact h t (ofParams h t)
      · exact ofEach h ts u hu

end

/-- **Induction on parameters**: what holds of a type as soon as it does of the parameters at its
levels holds of every type. -/
theorem inductionOnParams (h : ∀ t : CType, (∀ l ∈ t.levels, ∀ p ∈ l.params, P p) → P t)
    (t : CType) : P t := h t (ofParams h t)

end Induction

/-! ## Legible types -/

/-- Marks that set parts of a spelling apart. -/
def marks : List Char := ['*', '(', '[', ')', ']', ',']

/-- **A name that can be told** from what stands around it: it holds no mark, and none of its words is
a qualifier. -/
def isLegibleName (name : String) : Bool :=
  name.toList.all (! marks.contains ·) &&
    (splitChars ' ' name.toList).all fun word => word != "const".toList && word != "volatile".toList

/-- A size that can be told from the brackets around it. -/
def isLegibleSize : Option String → Bool
  | none => true
  | some size => size != "" && size.toList.all (! ['[', ']', '(', ')', ','].contains ·)

mutual

/-- **A type of which all names and sizes can be told**; none of its functions has the one parameter
that spells that there is none. -/
def isLegible : CType → Bool
  | .named name _ => isLegibleName name
  | .pointer pointee _ => pointee.isLegible
  | .array element size => element.isLegible && isLegibleSize size
  | .function result params =>
    result.isLegible && decide (params ≠ [plain "void"]) && areLegible params

/-- Each type can be told. -/
def areLegible : List CType → Bool
  | [] => true
  | t :: ts => t.isLegible && areLegible ts

end

/-- What can be told of a level. -/
def Level.IsLegible : Level → Prop
  | pointer _ => True
  | array size => isLegibleSize size = true
  | function params => params ≠ [plain "void"] ∧ ∀ p ∈ params, p.isLegible = true

theorem areLegible_iff : ∀ {ts : List CType}, areLegible ts = true ↔ ∀ t ∈ ts, t.isLegible = true
  | [] => by simp [areLegible]
  | t :: ts => by simp [areLegible, areLegible_iff]

/-- **A type is legible** as its base and its levels are. -/
theorem isLegible_iff : ∀ {t : CType}, t.isLegible = true ↔
    isLegibleName t.baseName = true ∧ ∀ l ∈ t.levels, l.IsLegible
  | .named name q => by simp [isLegible, levels, baseName, base, name?]
  | .pointer pointee q => by
      rw [isLegible, isLegible_iff, levels]
      simp [Level.IsLegible, or_imp, forall_and, baseName, base]
  | .array element size => by
      rw [isLegible, Bool.and_eq_true, isLegible_iff, levels]
      simp [Level.IsLegible, or_imp, forall_and, baseName, base, and_assoc]
  | .function result params => by
      rw [isLegible, Bool.and_eq_true, Bool.and_eq_true, isLegible_iff, areLegible_iff, levels]
      simp [Level.IsLegible, or_imp, forall_and, baseName, base, and_assoc]

theorem Level.IsLegible.isLegible_params {l : Level} (h : l.IsLegible) :
    ∀ p ∈ l.params, p.isLegible = true := by
  cases l with
  | pointer | array => exact nofun
  | function params => exact h.2

theorem not_mem_of_isLegibleSize {size : Option String} (h : isLegibleSize size = true) :
    ∀ c ∈ (size.getD "").toList, c ∉ ['[', ']', '(', ')', ','] := by
  cases size with
  | none => exact nofun
  | some size =>
    rw [isLegibleSize, Bool.and_eq_true, List.all_eq_true] at h
    intro c hc hmem
    have := h.2 c hc
    rw [List.contains_eq_mem, decide_eq_true hmem] at this
    exact Bool.false_ne_true this

/-! ## Declarators -/

/-- The parameters between the parentheses of a function. -/
def paramList (params : List CType) : List Char :=
  if params.isEmpty then "void".toList else commaList (params.map (·.render.toList))

/-- What a level puts behind the others; a pointer puts nothing there. -/
def Level.closing : Level → List Char
  | pointer _ => []
  | array size => '[' :: ((size.getD "").toList ++ [']'])
  | function params => '(' :: (paramList params ++ [')'])

/-- What stands between a star and the rest of the declarator. -/
def trailer (q : Qualifiers) (isBare : Bool) : List Char :=
  q.trailing.toList ++ if isBare || q.trailing.isEmpty then [] else [' ']

/-- Parentheses around a declarator of which a pointer is the outermost level. -/
def enclosed : List Level → List Char → List Char
  | .pointer _ :: _, inner => '(' :: (inner ++ [')'])
  | _, inner => inner

/-- **The declarator that levels spell**, the first one outermost. -/
def declarator : List Level → List Char
  | [] => []
  | .pointer q :: levels => '*' :: (trailer q (declarator levels).isEmpty ++ declarator levels)
  | l :: levels => enclosed levels (declarator levels) ++ l.closing

theorem spellEach_eq : ∀ ts : List CType, spellEach ts = ts.map render
  | [] => rfl
  | t :: ts => by rw [spellEach, spellEach_eq ts]; rfl

theorem toList_starDeclarator (q : Qualifiers) (inner : List Char) :
    starDeclarator q (String.ofList inner) =
      String.ofList ('*' :: (trailer q inner.isEmpty ++ inner)) := by
  rw [← String.toList_inj, starDeclarator, trailer]
  cases inner with
  | nil => simp
  | cons c cs => cases q.trailing.isEmpty <;> simp

/-- **A type is spelled** by its base around the declarator of its levels. -/
theorem spellAround_declarator : ∀ (t : CType) (levels : List Level),
    t.spellAround (String.ofList
      (if t.bindsTighter then enclosed levels (declarator levels) else declarator levels)) =
        t.base.spellAround (String.ofList (declarator (t.levels ++ levels)))
  | .named name q, levels => rfl
  | .pointer pointee q, levels => by
      have hstar : starAround pointee q (String.ofList (declarator levels)) = String.ofList
          (if pointee.bindsTighter then enclosed (.pointer q :: levels)
            (declarator (.pointer q :: levels)) else declarator (.pointer q :: levels)) := by
        rw [starAround, toList_starDeclarator]
        split
        · rw [← String.toList_inj]
          simp [enclosed, declarator]
        · rfl
      rw [show bindsTighter (.pointer pointee q) = false from rfl, if_neg Bool.false_ne_true,
        spellAround, hstar, spellAround_declarator pointee, base, CType.levels, List.append_assoc]
      rfl
  | .array element size, levels => by
      have hclosing : String.ofList (enclosed levels (declarator levels)) ++ "[" ++ size.getD "" ++
          "]" = String.ofList (declarator (.array size :: levels)) := by
        rw [← String.toList_inj]
        simp [declarator, Level.closing]
      rw [show bindsTighter (.array element size) = true from rfl, if_pos rfl, spellAround,
        hclosing, base, CType.levels, List.append_assoc, List.singleton_append,
        ← spellAround_declarator element]
      exact congrArg (element.spellAround <| String.ofList ·) (ite_self _).symm
  | .function result params, levels => by
      have hclosing : String.ofList (enclosed levels (declarator levels)) ++ "(" ++
          (if params.isEmpty then "void" else ", ".intercalate (spellEach params)) ++ ")" =
            String.ofList (declarator (.function params :: levels)) := by
        rw [← String.toList_inj]
        cases params with
        | nil => simp [declarator, Level.closing, paramList]
        | cons p params =>
          simp [declarator, Level.closing, paramList, spellEach_eq, commaList,
            String.toList_intercalate, Function.comp_def]
      rw [show bindsTighter (.function result params) = true from rfl, if_pos rfl, spellAround,
        hclosing, base, CType.levels, List.append_assoc, List.singleton_append,
        ← spellAround_declarator result]
      exact congrArg (result.spellAround <| String.ofList ·) (ite_self _).symm

/-- What stands before the declarator. -/
def heading (name : String) (q : Qualifiers) (isBare : Bool) : List Char :=
  q.leading.toList ++ name.toList ++ if isBare then [] else [' ']

/-- **The spelling of a type** is its heading and its declarator. -/
theorem toList_render (t : CType) : t.render.toList =
    heading t.baseName t.base.qualifiers (declarator t.levels).isEmpty ++ declarator t.levels := by
  have h := spellAround_declarator t []
  rw [List.append_nil, base_eq, show enclosed [] (declarator []) = declarator [] from rfl,
    ite_self] at h
  rw [render, show ("" : String) = String.ofList (declarator []) from rfl, h, spellAround, heading]
  cases hD : declarator t.levels with
  | nil => simp
  | cons c cs => simp

variable {t : CType} {l l' : Level} {levels levels' : List Level} {params params' : List CType}
  {a b : List Char}

/-! ## The start of a declarator -/

/-- A pointer. -/
def Level.isPointer : Level → Bool
  | pointer _ => true
  | array _ | function _ => false

theorem declarator_cons (h : l.isPointer = false) :
    declarator (l :: levels) = enclosed levels (declarator levels) ++ l.closing := by
  cases l with
  | pointer q => exact nomatch h
  | array | function => rfl

theorem enclosed_cons (h : l.isPointer = false) (inner : List Char) :
    enclosed (l :: levels) inner = inner := by
  cases l with
  | pointer q => exact nomatch h
  | array | function => rfl

theorem head?_enclosed : ∀ {levels : List Level},
    ∀ c ∈ (enclosed levels (declarator levels)).head?, c ∈ ['(', '[']
  | [], _, h => nomatch h
  | l :: levels, c, h => by
      cases l with
      | pointer q =>
        obtain rfl := Option.some.inj (h : some '(' = some c)
        decide
      | array | function =>
        rw [enclosed_cons rfl, declarator_cons rfl, List.head?_append, Option.mem_def,
          Option.or_eq_some_iff] at h
        rcases h with h | ⟨-, h⟩
        · exact head?_enclosed c h
        · rw [← Option.some.inj h]
          decide

/-- **A declarator starts with a star** exactly if a pointer is its outermost level. -/
theorem head?_declarator_cons : ∀ c ∈ (declarator (l :: levels)).head?,
    c ∈ ['*', '(', '['] ∧ (c = '*' ↔ l.isPointer = true) := by
  intro c hc
  cases hl : l.isPointer with
  | false =>
    rw [← enclosed_cons hl (declarator (l :: levels))] at hc
    have hmark := head?_enclosed c hc
    refine ⟨List.mem_cons_of_mem _ hmark, iff_of_false ?_ Bool.false_ne_true⟩
    rintro rfl
    exact absurd hmark (by decide)
  | true =>
    cases l with
    | pointer q =>
      obtain rfl := Option.some.inj (hc : some '*' = some c)
      decide
    | array | function => exact nomatch hl

theorem head?_declarator : ∀ c ∈ (declarator levels).head?, c ∈ ['*', '(', '['] := by
  cases levels with
  | nil => exact nofun
  | cons l levels => exact fun c hc => (head?_declarator_cons c hc).1

theorem declarator_cons_ne_nil (l : Level) (levels : List Level) :
    declarator (l :: levels) ≠ [] := by
  cases l with
  | pointer q => exact List.cons_ne_nil _ _
  | array | function =>
    rw [declarator_cons rfl]
    exact List.append_ne_nil_of_right_ne_nil _ (List.cons_ne_nil _ _)

/-! ## Parentheses -/

theorem not_mem_marks_of_isLegibleName {name : String} (h : isLegibleName name = true) :
    ∀ c ∈ name.toList, c ∉ marks := by
  rw [isLegibleName, Bool.and_eq_true, List.all_eq_true] at h
  intro c hc hmark
  have := h.1 c hc
  rw [List.contains_eq_mem, decide_eq_true hmark] at this
  exact Bool.false_ne_true this

/-- No mark stands before the declarator. -/
theorem not_mem_marks_of_mem_heading {name : String} {q : Qualifiers} {isBare : Bool}
    (h : isLegibleName name = true) : ∀ c ∈ heading name q isBare, c ∉ marks := by
  intro c hc
  rw [heading, List.mem_append, List.mem_append] at hc
  rcases hc with (hc | hc) | hc
  · have hleading : ∀ q : Qualifiers, ∀ c ∈ q.leading.toList, c ∉ marks := by
      rintro ⟨_ | _, _ | _⟩ <;> exact List.forall_iff_forall_mem.mp (by decide)
    exact hleading q c hc
  · exact not_mem_marks_of_isLegibleName h c hc
  · cases isBare with
    | true => exact nomatch hc
    | false =>
      rw [List.mem_singleton.mp hc]
      decide

/-- No mark follows a star until the rest of the declarator. -/
theorem not_mem_marks_of_mem_trailer : ∀ {q : Qualifiers} {isBare : Bool},
    ∀ c ∈ trailer q isBare, c ∉ marks := by
  rintro ⟨_ | _, _ | _⟩ (_ | _) <;> exact List.forall_iff_forall_mem.mp (by decide)

theorem isNested_of_not_mem_marks {loose : Bool} (h : ∀ c ∈ a, c ∉ marks) : IsNested loose a :=
  Text.isNested_of_plain fun c hc hmem => h c hc <| (by decide : ['(', ')', ','] ⊆ marks) hmem

/-- **Declarators are nested** if what stands between the parentheses of functions is. -/
theorem isNested_declarator : ∀ {levels : List Level}, (∀ l ∈ levels, IsNested false l.closing) →
    IsNested false (declarator levels)
  | [], _ => rfl
  | l :: levels, h => by
      have hrest := isNested_declarator fun l' hl' => h l' (List.mem_cons_of_mem l hl')
      have henclosed : IsNested false (enclosed levels (declarator levels)) := by
        rw [enclosed.eq_def]
        split
        · exact hrest.group
        · exact hrest
      cases l with
      | pointer q =>
        have htrailer : IsNested false (trailer q (declarator levels).isEmpty) :=
          isNested_of_not_mem_marks not_mem_marks_of_mem_trailer
        have hstar : IsNested false ['*'] := rfl
        exact hstar.append (htrailer.append hrest)
      | array | function => exact henclosed.append (h _ List.mem_cons_self)

/-- What a level puts behind the others is nested if its parameters are. -/
theorem isNested_closing (hl : l.IsLegible)
    (hparams : ∀ p ∈ l.params, IsNested false p.render.toList) : IsNested false l.closing := by
  cases l with
  | pointer q => rfl
  | array size =>
    have hsize : IsNested false (size.getD "").toList :=
      Text.isNested_of_plain fun c hc hmem => not_mem_of_isLegibleSize hl c hc <|
        (by decide : ['(', ')', ','] ⊆ ['[', ']', '(', ')', ',']) hmem
    have hopen : IsNested false ['['] := rfl
    have hclose : IsNested false [']'] := rfl
    exact hopen.append (hsize.append hclose)
  | function params =>
    have hlist : IsNested true (paramList params) := by
      rw [paramList]
      split
      · rfl
      · refine Text.isNested_commaList fun u hu => ?_
        obtain ⟨p, hp, rfl⟩ := List.mem_map.mp hu
        exact (hparams p hp).of_strict
    exact hlist.group

/-- **Every spelling is nested**, and no comma stands outside of its parentheses. -/
theorem isNested_render (t : CType) : t.isLegible = true → IsNested false t.render.toList := by
  induction t using inductionOnParams with
  | h t ih =>
    intro ht
    obtain ⟨hname, hlevels⟩ := isLegible_iff.mp ht
    rw [toList_render]
    refine (isNested_of_not_mem_marks (not_mem_marks_of_mem_heading hname)).append
      (isNested_declarator fun l hl => isNested_closing (hlevels l hl) fun p hp => ?_)
    exact ih l hl p hp ((hlevels l hl).isLegible_params p hp)

/-! ## Reading the levels -/

/-- **A type is told by its spelling** from every legible one. -/
def IsTold (t : CType) : Prop := ∀ u : CType, u.isLegible = true → t.render = u.render → t = u

/-- Lists of which the items are told apart. -/
theorem eq_of_map_eq {α β : Type} {f : α → β} : ∀ {l l' : List α},
    (∀ x ∈ l, ∀ y ∈ l', f x = f y → x = y) → l.map f = l'.map f → l = l'
  | [], [], _, _ => rfl
  | [], _ :: _, _, h | _ :: _, [], _, h => nomatch h
  | x :: l, y :: l', hall, h => by
      rw [List.map_cons, List.map_cons, List.cons.injEq] at h
      have hrest : ∀ x' ∈ l, ∀ y' ∈ l', f x' = f y' → x' = y' := fun x' hx y' hy =>
        hall x' (List.mem_cons_of_mem x hx) y' (List.mem_cons_of_mem y hy)
      rw [hall x List.mem_cons_self y List.mem_cons_self h.1, eq_of_map_eq hrest h.2]

/-- The items of a list of parameters. -/
theorem exists_paramList_eq (h : (Level.function params).IsLegible) :
    ∃ items, items ≠ [] ∧ paramList params = commaList items ∧ (∀ u ∈ items, IsNested false u) ∧
      (items = ["void".toList] ∧ params = [] ∨ items = params.map (·.render.toList)) := by
  cases params with
  | nil =>
    exact ⟨["void".toList], List.cons_ne_nil _ _, (Text.commaList_singleton _).symm,
      List.forall_mem_singleton.mpr rfl, .inl ⟨rfl, rfl⟩⟩
  | cons p params =>
    refine ⟨(p :: params).map (·.render.toList), List.cons_ne_nil _ _, rfl, fun u hu => ?_,
      .inr rfl⟩
    obtain ⟨q, hq, rfl⟩ := List.mem_map.mp hu
    exact isNested_render q (h.2 q hq)

theorem isNested_paramList (h : (Level.function params).IsLegible) :
    IsNested true (paramList params) := by
  obtain ⟨items, -, hitems, hnested, -⟩ := exists_paramList_eq h
  rw [hitems]
  exact Text.isNested_commaList fun u hu => (hnested u hu).of_strict

/-- The one type that is spelled `void` is no single parameter. -/
theorem map_render_ne_void (h : (Level.function params).IsLegible) :
    params.map (·.render.toList) ≠ ["void".toList] := by
  intro hvoid
  obtain ⟨p, rfl, hp⟩ := List.map_eq_singleton_iff.mp hvoid
  exact h.1 (congrArg ([·]) (eq_void_of_render (String.toList_inj.mp hp)))

/-- **Lists of parameters** are told from each other. -/
theorem paramList_inj (h : (Level.function params).IsLegible)
    (h' : (Level.function params').IsLegible) (hp : ∀ p ∈ params, p.IsTold)
    (heq : paramList params = paramList params') : params = params' := by
  obtain ⟨items, hne, hitems, hnested, hcases⟩ := exists_paramList_eq h
  obtain ⟨items', hne', hitems', hnested', hcases'⟩ := exists_paramList_eq h'
  rw [hitems, hitems'] at heq
  obtain rfl := Text.commaList_inj hne hne' hnested hnested' heq
  rcases hcases with ⟨rfl, rfl⟩ | rfl <;> rcases hcases' with ⟨hvoid, rfl⟩ | hmap
  · rfl
  · exact absurd hmap.symm (map_render_ne_void h')
  · exact absurd hvoid (map_render_ne_void h)
  · refine eq_of_map_eq (fun p hmem q hq hpq => ?_) hmap
    exact hp p hmem q (h'.2 q hq) (String.toList_inj.mp hpq)

/-- No spelling starts with a star. -/
theorem head?_render (ht : t.isLegible = true) : t.render.toList.head? ≠ some '*' := by
  obtain ⟨hname, -⟩ := isLegible_iff.mp ht
  rw [toList_render, List.head?_append, ne_eq, Option.or_eq_some_iff]
  rintro (hstar | ⟨hnone, hstar⟩)
  · exact not_mem_marks_of_mem_heading hname _ (List.mem_of_head? hstar) (by decide)
  · cases hD : declarator t.levels with
    | nil => rw [hD] at hstar; exact nomatch hstar
    | cons c cs =>
      rw [hD, List.head?_eq_none_iff, heading] at hnone
      simp at hnone

/-- No list of parameters starts with a star. -/
theorem head?_paramList (h : (Level.function params).IsLegible) :
    (paramList params).head? ≠ some '*' := by
  cases params with
  | nil => decide
  | cons p params =>
    have hp := head?_render (h.2 p List.mem_cons_self)
    cases params with
    | nil =>
      change (commaList [p.render.toList]).head? ≠ _
      rwa [Text.commaList_singleton]
    | cons q params =>
      rw [paramList, if_neg (by exact Bool.false_ne_true), List.map_cons, List.map_cons,
        Text.commaList_cons_cons, List.head?_append, ne_eq, Option.or_eq_some_iff]
      rintro (hstar | ⟨-, hstar⟩)
      · exact hp hstar
      · have hcomma : some ',' = some '*' := hstar
        exact absurd hcomma (by decide)

/-- Sizes are told from each other. -/
theorem size_inj {size size' : Option String} (h : isLegibleSize size = true)
    (h' : isLegibleSize size' = true) (heq : size.getD "" = size'.getD "") : size = size' := by
  cases size with
  | none =>
    cases size' with
    | none => rfl
    | some size' => rw [← show "" = size' from heq] at h'; exact absurd h' (by decide)
  | some size =>
    cases size' with
    | none => rw [show size = "" from heq] at h; exact absurd h (by decide)
    | some size' => exact congrArg some heq

/-- **What stands behind a declarator** tells the level that it belongs to. -/
theorem append_closing_inj (hl : l.isPointer = false) (hl' : l'.isPointer = false) (h : l.IsLegible)
    (h' : l'.IsLegible) (hp : ∀ p ∈ l.params, p.IsTold)
    (heq : a ++ l.closing = b ++ l'.closing) : a = b ∧ l = l' := by
  have hlast {c d : Char} {u v : List Char} (heq : a ++ u ++ [c] = b ++ v ++ [d]) :
      c = d ∧ a ++ u = b ++ v := by
    have := List.append_inj' heq rfl
    exact ⟨List.singleton_inj.mp this.2, this.1⟩
  cases l with
  | pointer q => exact nomatch hl
  | array size =>
    cases l' with
    | pointer q => exact nomatch hl'
    | array size' =>
      obtain ⟨-, heq⟩ := hlast (u := '[' :: (size.getD "").toList)
        (v := '[' :: (size'.getD "").toList) (by simpa [Level.closing] using heq)
      rcases Text.append_cons_cases heq with ⟨hab, hsize⟩ | ⟨w, -, hw⟩ | ⟨w, -, hw⟩
      · exact ⟨hab, congrArg Level.array (size_inj h h' (String.toList_inj.mp hsize))⟩
      · exact absurd (by decide) (not_mem_of_isLegibleSize h '[' (by simp [hw]))
      · exact absurd (by decide) (not_mem_of_isLegibleSize h' '[' (by simp [hw]))
    | function params =>
      exact absurd (hlast (u := '[' :: (size.getD "").toList) (v := '(' :: paramList params)
        (by simpa [Level.closing] using heq)).1 (by decide)
  | function params =>
    cases l' with
    | pointer q => exact nomatch hl'
    | array size =>
      exact absurd (hlast (u := '(' :: paramList params) (v := '[' :: (size.getD "").toList)
        (by simpa [Level.closing] using heq)).1 (by decide)
    | function params' =>
      obtain ⟨hab, hlist⟩ := Text.group_inj (isNested_paramList h) (isNested_paramList h') heq
      exact ⟨hab, congrArg Level.function (paramList_inj h h' hp hlist)⟩

/-- **A pointer in parentheses** is no declarator by itself. -/
theorem group_ne_declarator {q : Qualifiers} (h : ∀ l ∈ Level.pointer q :: levels, l.IsLegible)
    (h' : ∀ l ∈ levels', l.IsLegible) :
    '(' :: (declarator (.pointer q :: levels) ++ [')']) ≠ declarator levels' := by
  intro heq
  cases levels' with
  | nil => exact nomatch heq
  | cons l' levels' =>
    cases l' with
    | pointer q' => exact absurd (List.cons.inj heq).1 (by decide)
    | array size =>
      have hlast : ('(' :: declarator (.pointer q :: levels)) ++ [')'] =
          (enclosed levels' (declarator levels') ++ '[' :: (size.getD "").toList) ++ [']'] := by
        rw [declarator_cons (l := .array size) rfl, Level.closing] at heq
        rw [List.append_assoc]
        exact heq
      exact absurd (List.singleton_inj.mp (List.append_inj_right' hlast rfl)) (by decide)
    | function params =>
      have hparams := h' _ List.mem_cons_self
      have hnested := isNested_declarator fun l hl => isNested_closing (h l hl) fun p hp =>
        isNested_render p ((h l hl).isLegible_params p hp)
      obtain ⟨-, hlist⟩ := Text.group_inj (a := []) hnested (isNested_paramList hparams) heq
      exact head?_paramList hparams (hlist ▸ rfl)

/-- **A declarator in parentheses** is told from one that an array or a function belongs to. -/
theorem enclosed_inj (h : ∀ l ∈ levels, l.IsLegible) (h' : ∀ l ∈ levels', l.IsLegible)
    (heq : enclosed levels (declarator levels) = enclosed levels' (declarator levels')) :
    declarator levels = declarator levels' := by
  rw [enclosed.eq_def, enclosed.eq_def] at heq
  split at heq <;> split at heq
  · exact List.append_cancel_right (List.cons.inj heq).2
  · exact absurd heq (group_ne_declarator h h')
  · exact absurd heq.symm (group_ne_declarator h' h)
  · exact heq

/-- **What stands before a declarator** without marks ends where the declarator starts. -/
theorem append_declarator_inj (ha : ∀ c ∈ a, c ∉ marks) (hb : ∀ c ∈ b, c ∉ marks)
    (heq : a ++ declarator levels = b ++ declarator levels') :
    a = b ∧ declarator levels = declarator levels' := by
  have hmark : ∀ {levels : List Level}, ∀ c ∈ (declarator levels).head?, c ∈ marks := fun c hc =>
    (by decide : ['*', '(', '['] ⊆ marks) (head?_declarator c hc)
  exact Text.append_inj_of_mark ha hb hmark hmark heq

theorem trailer_inj : ∀ {q q' : Qualifiers} {isBare : Bool},
    trailer q isBare = trailer q' isBare → q = q' := by
  rintro ⟨_ | _, _ | _⟩ ⟨_ | _, _ | _⟩ (_ | _) <;> decide

/-- **Declarators tell their levels.** -/
theorem declarator_inj : ∀ {levels levels' : List Level}, (∀ l ∈ levels, l.IsLegible) →
    (∀ l ∈ levels', l.IsLegible) → (∀ l ∈ levels, ∀ p ∈ l.params, p.IsTold) →
      declarator levels = declarator levels' → levels = levels'
  | [], [], _, _, _, _ => rfl
  | [], l' :: levels', _, _, _, heq => absurd heq.symm (declarator_cons_ne_nil l' levels')
  | l :: levels, [], _, _, _, heq => absurd heq (declarator_cons_ne_nil l levels)
  | l :: levels, l' :: levels', h, h', hp, heq => by
      have hlevels := fun l hl => h l (List.mem_cons_of_mem _ hl)
      have hlevels' := fun l hl => h' l (List.mem_cons_of_mem _ hl)
      have hrest : declarator levels = declarator levels' → levels = levels' :=
        declarator_inj hlevels hlevels' fun l hl => hp l (List.mem_cons_of_mem _ hl)
      obtain ⟨c, cs, hc⟩ := List.exists_cons_of_ne_nil (declarator_cons_ne_nil l levels)
      have hstar := (head?_declarator_cons c (by rw [hc]; rfl)).2
      have hstar' := (head?_declarator_cons c (by rw [← heq, hc]; rfl)).2
      cases hl : l.isPointer with
      | true =>
        have hl' := hstar'.mp (hstar.mpr hl)
        cases l with
        | array | function => exact nomatch hl
        | pointer q =>
          cases l' with
          | array | function => exact nomatch hl'
          | pointer q' =>
            obtain ⟨htrailer, hD⟩ := append_declarator_inj not_mem_marks_of_mem_trailer
              not_mem_marks_of_mem_trailer (List.cons.inj heq).2
            rw [hD] at htrailer
            rw [trailer_inj htrailer, hrest hD]
      | false =>
        have hl' : l'.isPointer = false := Bool.eq_false_iff.mpr fun hl' =>
          Bool.eq_false_iff.mp hl (hstar.mp (hstar'.mpr hl'))
        rw [declarator_cons hl, declarator_cons hl'] at heq
        obtain ⟨henclosed, rfl⟩ := append_closing_inj hl hl' (h l List.mem_cons_self)
          (h' l' List.mem_cons_self) (hp l List.mem_cons_self) heq
        rw [hrest (enclosed_inj hlevels hlevels' henclosed)]

/-! ## Spellings -/

/-- The words of qualifiers before a name. -/
def qualifierWords (q : Qualifiers) : List (List Char) :=
  (if q.isConst then ["const".toList] else []) ++ if q.isVolatile then ["volatile".toList] else []

theorem splitChars_leading (q : Qualifiers) (cs : List Char) :
    splitChars ' ' (q.leading.toList ++ cs) = qualifierWords q ++ splitChars ' ' cs := by
  have hconst (cs : List Char) :
      splitChars ' ' ("const ".toList ++ cs) = "const".toList :: splitChars ' ' cs :=
    Text.splitChars_append (p := "const".toList) (by decide)
  have hvolatile (cs : List Char) :
      splitChars ' ' ("volatile ".toList ++ cs) = "volatile".toList :: splitChars ' ' cs :=
    Text.splitChars_append (p := "volatile".toList) (by decide)
  obtain ⟨isConst, isVolatile⟩ := q
  rw [Qualifiers.leading, String.toList_append, List.append_assoc]
  cases isConst <;> cases isVolatile
  · rfl
  · exact hvolatile cs
  · exact hconst cs
  · exact (hconst _).trans (congrArg ("const".toList :: ·) (hvolatile cs))

theorem mem_qualifierWords_iff : ∀ q : Qualifiers,
    ("const".toList ∈ qualifierWords q ↔ q.isConst = true) ∧
      ("volatile".toList ∈ qualifierWords q ↔ q.isVolatile = true) := by
  rintro ⟨_ | _, _ | _⟩ <;> decide

/-- The qualifiers of a name show among the words, as none is a word of the name. -/
theorem mem_words_iff {q : Qualifiers} {name : String} (h : isLegibleName name = true) :
    ("const".toList ∈ splitChars ' ' (q.leading.toList ++ name.toList) ↔ q.isConst = true) ∧
      ("volatile".toList ∈ splitChars ' ' (q.leading.toList ++ name.toList) ↔
        q.isVolatile = true) := by
  rw [isLegibleName, Bool.and_eq_true] at h
  have hword := List.all_eq_true.mp h.2
  rw [splitChars_leading, List.mem_append, List.mem_append, or_iff_left, or_iff_left]
  · exact mem_qualifierWords_iff q
  · exact fun hmem => absurd (hword _ hmem) (by decide)
  · exact fun hmem => absurd (hword _ hmem) (by decide)

/-- **A name and its qualifiers** are told by the words. -/
theorem leading_append_inj {q q' : Qualifiers} {name name' : String}
    (h : isLegibleName name = true) (h' : isLegibleName name' = true)
    (heq : q.leading.toList ++ name.toList = q'.leading.toList ++ name'.toList) :
    q = q' ∧ name = name' := by
  obtain ⟨hconst, hvolatile⟩ := mem_words_iff (q := q) h
  obtain ⟨hconst', hvolatile'⟩ := mem_words_iff (q := q') h'
  rw [heq] at hconst hvolatile
  have hq : q = q' := by
    have hisConst : q.isConst = q'.isConst := Bool.eq_iff_iff.mpr (hconst.symm.trans hconst')
    have hisVolatile : q.isVolatile = q'.isVolatile :=
      Bool.eq_iff_iff.mpr (hvolatile.symm.trans hvolatile')
    cases q
    cases q'
    exact Qualifiers.mk.injEq .. |>.mpr ⟨hisConst, hisVolatile⟩
  subst hq
  exact ⟨rfl, String.toList_inj.mp (List.append_cancel_left heq)⟩

/-- **Every legible type** is told by its spelling. -/
theorem isTold (t : CType) : t.isLegible = true → t.IsTold := by
  induction t using inductionOnParams with
  | h t ih =>
    intro ht u hu heq
    obtain ⟨hname, hlevels⟩ := isLegible_iff.mp ht
    obtain ⟨hname', hlevels'⟩ := isLegible_iff.mp hu
    have htext := congrArg String.toList heq
    rw [toList_render, toList_render] at htext
    obtain ⟨hheading, hD⟩ := append_declarator_inj (not_mem_marks_of_mem_heading hname)
      (not_mem_marks_of_mem_heading hname') htext
    rw [hD, heading, heading] at hheading
    obtain ⟨hq, hbase⟩ := leading_append_inj hname hname' (List.append_cancel_right hheading)
    have hsame : t.levels = u.levels := declarator_inj hlevels hlevels'
      (fun l hl p hp => ih l hl p hp ((hlevels l hl).isLegible_params p hp)) hD
    rw [← foldl_levels t, ← foldl_levels u, base_eq t, base_eq u, hsame, hq, hbase]

/-- **Legible types are spelled alike** only if they are the same, with the same qualifiers at every
level. -/
theorem render_eq_iff {s t : CType} (hs : s.isLegible = true) (ht : t.isLegible = true) :
    s.render = t.render ↔ s = t :=
  ⟨isTold s hs t ht, congrArg render⟩

/-- A constant table of four handlers that take a text and a number. -/
def handlers : CType :=
  .array (.pointer (.function (.plain "void") [.pointer (.named "char" ⟨true, false⟩) .none, .int])
    ⟨true, false⟩) (some "4")

theorem render_handlers : handlers.isLegible = true ∧ (pointerTo handlers).isLegible = true ∧
    handlers.render = "void (*const [4])(const char *, int)" ∧
      (pointerTo handlers).render = "void (*const (*)[4])(const char *, int)" ∧
        ((pointerTo handlers).render = handlers.render ↔ pointerTo handlers = handlers) := by
  have h : handlers.isLegible = true := by decide +kernel
  have h' : (pointerTo handlers).isLegible = true := by decide +kernel
  exact ⟨h, h', by decide +kernel, by decide +kernel, render_eq_iff h' h⟩

end CType

end ProbeWeaver
