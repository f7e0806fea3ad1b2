import ProbeWeaver.Proofs.Tree.Places
import ProbeWeaver.Proofs.Typing.Elements

/-!
# Proofs/Typing/Unwinding — declarators unwind to the type that they spell

A declarator of C is built around a name from the inside out, the outermost level of the type first;
`peel` walks it from the outside in.  `Spells` builds it one level of the type at a time, with the
parentheses that C asks for and any others.

* `peelOptional_of_spells` — to peel what was built from the base type gives the type back.
* `peelNamed?_of_declares`, `peelOptional_of_abstract` — around a name, and around none.
-/

namespace ProbeWeaver

namespace CType

/-- The named type below every level. -/
def base : CType → CType
  | .named name q => .named name q
  | .pointer pointee _ => pointee.base
  | .array element _ => element.base
  | .function result _ => result.base

mutual

/-- **Parameters as functions take them**: of decayed types, and not the single type `void`. -/
def isAdjusted : CType → Bool
  | .named _ _ => true
  | .pointer pointee _ => pointee.isAdjusted
  | .array element _ => element.isAdjusted
  | .function result params =>
    result.isAdjusted && decide (params ≠ [plain "void"]) && areAdjusted params

/-- Each type is that of a parameter. -/
def areAdjusted : List CType → Bool
  | [] => true
  | t :: ts => decide (t.decayed = t) && t.isAdjusted && areAdjusted ts

end

/-- **The one type that is spelled `void`.** -/
theorem eq_void_of_render {t : CType} (h : t.render = "void") : t = plain "void" := by
  have hshort {inner : String} {c : Char} (t : CType) (hc : c ∈ inner.toList)
      (ht : t.spellAround inner = "void") : c ∈ "void".toList :=
    ht ▸ (isInfix_spellAround t inner).subset hc
  cases t with
  | named name q =>
    obtain ⟨isConst, isVolatile⟩ := q
    rw [render, spellAround, if_pos (by decide), String.append_empty] at h
    have hlength := congrArg String.length h
    rw [String.length_append] at hlength
    cases isConst <;> cases isVolatile
    · rw [plain, ← h]
      exact congrArg (named · .none) (String.empty_append).symm
    all_goals
      refine absurd (Nat.le.intro hlength) ?_
      decide
  | pointer pointee q =>
    have hstar : '*' ∈ (starAround pointee q "").toList := by
      rw [starAround, starDeclarator]
      split <;> simp
    exact absurd (hshort pointee hstar h) (by decide)
  | array element size =>
    exact absurd (hshort (c := '[') element (by simp) h) (by decide)
  | function result params =>
    exact absurd (hshort (c := '(') result (by simp) h) (by decide)

end CType

namespace Declarator

variable {source : String} {n inner outer : Node} {t base : CType} {isAbstract : Bool}

/-! ## One level -/

/-- A level of a declarator. -/
inductive Level where
  | pointer | array | function | parentheses
  deriving DecidableEq

/-- The kind of a level, in an abstract declarator or around a name. -/
def Level.kind : Bool → Level → Kind
  | true, .pointer => .abstractPointerDeclarator
  | true, .array => .abstractArrayDeclarator
  | true, .function => .abstractFunctionDeclarator
  | true, .parentheses => .abstractParenthesizedDeclarator
  | false, .pointer => .pointerDeclarator
  | false, .array => .arrayDeclarator
  | false, .function => .functionDeclarator
  | false, .parentheses => .parenthesizedDeclarator

/-- The type of a parameter. -/
def parameterType (source : String) (p : Node) : CType :=
  (peelOptional source (p.field? .declarator) (baseType source p)).2.decayed

/-- The parameters in a list. -/
def parameters (list : Node) : List Node :=
  list.namedChildren.filter (·.kind == .parameterDeclaration)

theorem peel_of_name (hkind : n.kind ∈ nameKinds) : peel source n base = (some n, base) := by
  rw [peel]
  simp only [nameKinds, List.mem_cons, List.not_mem_nil, or_false] at hkind
  rcases hkind with h | h | h <;> rw [h]

theorem peel_pointer (hkind : n.kind = Level.pointer.kind isAbstract) :
    peel source n base = peelOptional source (n.field? .declarator)
      (.pointer base (qualifiersBelow source n)) := by
  rw [peel, hkind]
  cases isAbstract <;> dsimp only [Level.kind] <;> split <;> simp_all [peelOptional]

theorem peel_array (hkind : n.kind = Level.array.kind isAbstract) :
    peel source n base = peelOptional source (n.field? .declarator)
      (.array base ((n.field? .size).map (·.text source))) := by
  rw [peel, hkind]
  cases isAbstract <;> dsimp only [Level.kind] <;> split <;> simp_all [peelOptional]

theorem peel_parentheses (hkind : n.kind = Level.parentheses.kind isAbstract) :
    peel source n base = peelOptional source n.firstNamed? base := by
  rw [peel, hkind]
  cases isAbstract <;> dsimp only [Level.kind] <;> split <;> simp_all [peelOptional]

theorem peel_init (hkind : n.kind = .initDeclarator) :
    peel source n base = peelOptional source (n.field? .declarator) base := by
  rw [peel, hkind]
  dsimp only
  split <;> simp_all [peelOptional]

/-- To keep some items and map them, with the place of each at hand. -/
theorem filterMap_attach_eq {α β : Type} {p : α → Bool} {g : α → β} {l : List α}
    {f : {x // x ∈ l} → Option β} (hf : ∀ x, f x = if p x.1 then some (g x.1) else none) :
    l.attach.filterMap f = (l.filter p).map g :=
  calc l.attach.filterMap f
      = (l.attach.map Subtype.val).filterMap fun a => if p a then some (g a) else none := by
        rw [List.filterMap_map, funext hf]
        rfl
    _ = (l.filter p).map g := by
        rw [List.attach_map_subtype_val, ← List.filterMap_eq_map, List.filterMap_filter]
        rfl

theorem peel_function {list : Node} (hkind : n.kind = Level.function.kind isAbstract)
    (hlist : n.field? .parameters = some list) :
    peel source n base = peelOptional source (n.field? .declarator)
      (.function base (dropVoid ((parameters list).map (parameterType source)))) := by
  rw [peel, hkind]
  cases isAbstract <;> dsimp only [Level.kind]
  all_goals
    generalize hparams : dropVoid _ = params
    have hgiven : params = dropVoid ((parameters list).map (parameterType source)) := by
      rw [← hparams]
      split
      · next list' hlist' _ =>
        obtain rfl := Option.some.inj (hlist'.symm.trans hlist)
        rw [filterMap_attach_eq (p := (·.kind == .parameterDeclaration))
          (g := parameterType source)]
        · rfl
        · intro p
          rw [parameterType]
          split <;> simp_all
          split <;> simp_all [peelOptional]
      · next h =>
        have hnone := Option.attach_eq_none_iff.mp h
        exact absurd (hlist.symm.trans hnone) (Option.some_ne_none list)
    rw [← hgiven]
    split <;> simp_all [peelOptional]

/-! ## Building declarators -/

/-- **Parentheses around a declarator**, any number. -/
inductive Enclosed (isAbstract : Bool) (n : Node) : Node → Prop where
  | bare : Enclosed isAbstract n n
  | parens {inner outer : Node} (h : Enclosed isAbstract n inner)
      (hkind : outer.kind = Level.parentheses.kind isAbstract)
      (hfirst : outer.firstNamed? = some inner) : Enclosed isAbstract n outer

/-- **The base of a declaration**: a type specifier names it, and qualifiers stand beside. -/
def HasBase (source : String) (decl : Node) (base : CType) : Prop :=
  ∃ spec name, decl.field? .type = some spec ∧ typeOfSpecifier source spec = .plain name ∧
    base = .named name (qualifiersBelow source decl)

mutual

/-- **A declarator that spells a type**, built around an inner one from the inside out.  A pointer
is applied to an array or a function in parentheses; more may stand around any level. -/
inductive Spells (source : String) : Bool → CType → Option Node → Option Node → Prop where
  | named {isAbstract : Bool} {name : String} {q : Qualifiers} {inner : Option Node} :
      Spells source isAbstract (.named name q) inner inner
  | pointer {isAbstract : Bool} {pointee : CType} {star around : Node} {outer : Option Node}
      (hkind : star.kind = Level.pointer.kind isAbstract)
      (henclosed : Enclosed isAbstract star around)
      (hparens : pointee.bindsTighter = true → around ≠ star)
      (rest : Spells source isAbstract pointee (some around) outer) :
      Spells source isAbstract (.pointer pointee (qualifiersBelow source star))
        (star.field? .declarator) outer
  | array {isAbstract : Bool} {element : CType} {brackets around : Node} {outer : Option Node}
      (hkind : brackets.kind = Level.array.kind isAbstract)
      (henclosed : Enclosed isAbstract brackets around)
      (rest : Spells source isAbstract element (some around) outer) :
      Spells source isAbstract (.array element ((brackets.field? .size).map (·.text source)))
        (brackets.field? .declarator) outer
  | function {isAbstract : Bool} {result : CType} {params : List CType} {call list around : Node}
      {outer : Option Node} (hkind : call.kind = Level.function.kind isAbstract)
      (hlist : call.field? .parameters = some list) (hparams : SpellsParameters source params list)
      (henclosed : Enclosed isAbstract call around)
      (rest : Spells source isAbstract result (some around) outer) :
      Spells source isAbstract (.function result params) (call.field? .declarator) outer

/-- **A list that spells the parameters** of a function; for none it may say `void`. -/
inductive SpellsParameters (source : String) : List CType → Node → Prop where
  | each {params : List CType} {list : Node} (h : SpellsEach source params (parameters list)) :
      SpellsParameters source params list
  | void {list p : Node} (hlist : parameters list = [p]) (hbase : HasBase source p (.plain "void"))
      (hbare : p.field? .declarator = none) : SpellsParameters source [] list

/-- **Parameters in turn**, each with a name or without. -/
inductive SpellsEach (source : String) : List CType → List Node → Prop where
  | nil : SpellsEach source [] []
  | named {t : CType} {params : List CType} {p n inner : Node} {ps : List Node}
      (hbase : HasBase source p t.base) (hname : n.kind ∈ nameKinds)
      (henclosed : Enclosed false n inner)
      (hspells : Spells source false t (some inner) (p.field? .declarator))
      (rest : SpellsEach source params ps) : SpellsEach source (t :: params) (p :: ps)
  | unnamed {t : CType} {params : List CType} {p : Node} {ps : List Node}
      (hbase : HasBase source p t.base) (hspells : Spells source true t none (p.field? .declarator))
      (rest : SpellsEach source params ps) : SpellsEach source (t :: params) (p :: ps)

end

/-- **A declarator of a name**: the type around the name, and perhaps an initializer at the end. -/
def Declares (source : String) (t : CType) (n outer : Node) : Prop :=
  n.kind ∈ nameKinds ∧ ∃ inner, Enclosed false n inner ∧ ∃ plain,
    Spells source false t (some inner) (some plain) ∧
      (outer = plain ∨ outer.kind = .initDeclarator ∧ outer.field? .declarator = some plain)

/-! ## Unwinding -/

theorem Enclosed.peel_eq (h : Enclosed isAbstract n outer) :
    peel source outer base = peel source n base := by
  induction h with
  | bare => rfl
  | parens _ hkind hfirst ih => rw [peel_parentheses hkind, hfirst, peelOptional, ih]

/-- A declaration with a base type has that base type. -/
theorem HasBase.baseType_eq (h : HasBase source n t) : baseType source n = t := by
  obtain ⟨spec, name, hspec, hname, rfl⟩ := h
  rw [baseType, hspec, Option.map_some, hname]
  rfl

theorem dropVoid_void : dropVoid [.plain "void"] = [] := by decide

/-- Parameters are kept, unless they are the one type `void`. -/
theorem dropVoid_eq_self {params : List CType} (h : params ≠ [.plain "void"]) :
    dropVoid params = params := by
  match params with
  | [] | _ :: _ :: _ => rfl
  | [t] => exact if_neg fun hvoid => h (congrArg (fun t => [t]) (CType.eq_void_of_render hvoid))

mutual

/-- **Unwinding inverts building**: to peel a declarator from the base type is to peel the inner one
from the type. -/
theorem peelOptional_of_spells : ∀ {t : CType} {isAbstract : Bool} {inner outer : Option Node},
    t.isAdjusted = true → Spells source isAbstract t inner outer →
      peelOptional source outer t.base = peelOptional source inner t
  | .named _ _, _, _, _, _, .named => rfl
  | .pointer pointee _, _, _, _, ht, .pointer hkind henclosed _ rest => by
      have hpointee : pointee.isAdjusted = true := ht
      rw [CType.base, peelOptional_of_spells hpointee rest, peelOptional, henclosed.peel_eq,
        peel_pointer hkind]
  | .array element _, _, _, _, ht, .array hkind henclosed rest => by
      have helement : element.isAdjusted = true := ht
      rw [CType.base, peelOptional_of_spells helement rest, peelOptional, henclosed.peel_eq,
        peel_array hkind]
  | .function result params, _, _, _, ht, .function hkind hlist hparams henclosed rest => by
      rw [CType.isAdjusted, Bool.and_eq_true_iff, Bool.and_eq_true_iff, decide_eq_true_iff] at ht
      obtain ⟨⟨hresult, hvoid⟩, hadjusted⟩ := ht
      rw [CType.base, peelOptional_of_spells hresult rest, peelOptional, henclosed.peel_eq,
        peel_function hkind hlist, dropVoid_parameters_of_spells hvoid hadjusted hparams]

/-- A list gives the parameters that it spells. -/
theorem dropVoid_parameters_of_spells : ∀ {params : List CType} {list : Node},
    params ≠ [.plain "void"] → CType.areAdjusted params = true →
      SpellsParameters source params list →
        dropVoid ((parameters list).map (parameterType source)) = params
  | params, _, hvoid, hadjusted, .each h => by
      rw [map_parameterType_of_spellsEach hadjusted h, dropVoid_eq_self hvoid]
  | [], list, _, _, .void hlist hbase hbare => by
      rw [hlist, List.map_singleton, parameterType, hbare, hbase.baseType_eq]
      exact dropVoid_void

/-- The parameters in turn are of the types that they spell. -/
theorem map_parameterType_of_spellsEach : ∀ {params : List CType} {ps : List Node},
    CType.areAdjusted params = true → SpellsEach source params ps →
      ps.map (parameterType source) = params
  | [], _, _, .nil => rfl
  | t :: params, p :: ps, h, .named hbase hname henclosed hspells rest => by
      rw [CType.areAdjusted, Bool.and_eq_true_iff, Bool.and_eq_true_iff, decide_eq_true_iff] at h
      obtain ⟨⟨hdecayed, ht⟩, hrest⟩ := h
      rw [List.map_cons, map_parameterType_of_spellsEach hrest rest, parameterType,
        hbase.baseType_eq, peelOptional_of_spells ht hspells, peelOptional, henclosed.peel_eq,
        peel_of_name hname, hdecayed]
  | t :: params, p :: ps, h, .unnamed hbase hspells rest => by
      rw [CType.areAdjusted, Bool.and_eq_true_iff, Bool.and_eq_true_iff, decide_eq_true_iff] at h
      obtain ⟨⟨hdecayed, ht⟩, hrest⟩ := h
      rw [List.map_cons, map_parameterType_of_spellsEach hrest rest, parameterType,
        hbase.baseType_eq, peelOptional_of_spells ht hspells, peelOptional, hdecayed]

end

/-- **A declarator of a name** gives the name and the type. -/
theorem peelNamed?_of_declares (ht : t.isAdjusted = true) (h : Declares source t n outer) :
    peelNamed? source outer t.base = some (n, t) := by
  obtain ⟨hname, inner, henclosed, plain, hspells, houter⟩ := h
  have hplain : peel source plain t.base = (some n, t) := by
    have hpeel := peelOptional_of_spells ht hspells
    rwa [peelOptional, peelOptional, henclosed.peel_eq, peel_of_name hname] at hpeel
  have hpeel : peel source outer t.base = (some n, t) := by
    rcases houter with rfl | ⟨hkind, hfield⟩
    · exact hplain
    · rw [peel_init hkind, hfield, peelOptional, hplain]
  rw [peelNamed?, hpeel]

/-- **A declarator without a name** gives the type. -/
theorem peelOptional_of_abstract {outer : Option Node} (ht : t.isAdjusted = true)
    (h : Spells source true t none outer) : peelOptional source outer t.base = (none, t) :=
  peelOptional_of_spells ht h

end Declarator

end ProbeWeaver
