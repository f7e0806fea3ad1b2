import ProbeWeaver.Proofs.Passes.Quiet

/-!
# Proofs/Passes/HookTexts — closers and definitions of hooks in inserted text

`Hooks.closersIn` and `Hooks.definesIn` read back which hooks a text closes and which it defines.
A text inserted on the way through a file closes the hooks whose numbers it was made with and defines
none (`Inserted.closes`), as long as the file's quotes hold no name of a hook; the same goes for
texts put together (`Hooks.closing_join`).
-/

namespace ProbeWeaver

open Text

variable {u : SourceUnit} {exprs : List Node} {draws : List Draw} {text ruleName q : String}
  {h hook : Hooks.Hook}

namespace Hooks

/-- **The hooks that a text closes**, by their numbers. -/
def closersIn (h : Hook) (text : String) : List Nat := numbersIn (closerStem h) ')' text

/-- **The hooks that a text defines**, by their numbers. -/
def definesIn (h : Hook) (text : String) : List Nat := numbersIn (defineStem h) ' ' text

theorem category_injective {g : Hook} (hg : g ∈ all) (hh : h ∈ all)
    (heq : g.category = h.category) : g = h := by
  have hall : ∀ g ∈ all, ∀ h ∈ all, g.category = h.category → g = h := by decide
  exact hall g hg h hh heq

end Hooks

/-- **The file's quotes hold no name of a hook.** -/
def SourceUnit.IsUnhooked (u : SourceUnit) : Prop :=
  ∀ q ∈ u.quotes, ∀ h ∈ Hooks.all, contains q h.tag = false

instance (u : SourceUnit) : Decidable u.IsUnhooked :=
  inferInstanceAs (Decidable (∀ q ∈ u.quotes, ∀ h ∈ Hooks.all, _))

/-! ## Quotes without names of hooks -/

/-- Without the name, there is neither the closer nor the definition. -/
theorem contains_of_tag {needle : String} (htag : h.tag.toList <:+ needle.toList)
    (hq : contains q h.tag = false) : contains q needle = false := by
  rw [contains, Bool.eq_false_iff] at hq ⊢
  exact fun hinfix => hq (hasInfix_of_longer htag.isInfix hinfix)

theorem tag_suffix_closerStem (h : Hooks.Hook) : h.tag.toList <:+ (Hooks.closerStem h).toList := by
  rw [Hooks.closerStem, String.toList_append]
  exact List.suffix_append _ _

theorem tag_suffix_defineStem (h : Hooks.Hook) : h.tag.toList <:+ (Hooks.defineStem h).toList := by
  rw [Hooks.defineStem, String.toList_append]
  exact List.suffix_append _ _

theorem SourceUnit.IsUnhooked.spares_closerStem (hu : u.IsUnhooked) (hh : h ∈ Hooks.all) :
    u.Spares (Hooks.closerStem h) := fun q hq =>
  .of_closerStem hh (contains_of_tag (tag_suffix_closerStem h) (hu q hq h hh))

/-- A name that is not in the text does not start it, whatever follows with a blank. -/
theorem not_prefix_of_tag (hh : h ∈ Hooks.all) (hq : contains q h.tag = false) (y : List Char) :
    ¬ h.tag.toList <+: q.toList ++ ' ' :: y := by
  intro hprefix
  rcases prefix_append_cases hprefix with hshort | ⟨d, rest, htag, hrest⟩
  · rw [contains, hasInfix_of_start hshort] at hq
    contradiction
  · have hblank : ∀ h ∈ Hooks.all, ' ' ∉ h.tag.toList := by decide
    refine hblank h hh ?_
    rw [htag, (List.cons_prefix_cons.mp hrest).1]
    exact List.mem_append_right _ List.mem_cons_self

/-- **A definition of a macro** defines no hook, if its name holds none. -/
theorem quiet_definedName (hh : h ∈ Hooks.all) (hq : contains q h.tag = false) :
    Quiet (Hooks.defineStem h) ("\n#define " ++ (q ++ " MUT_")) := by
  have hneedle := defineStem_mem hh
  have hblank : Closes (Hooks.defineStem h) " MUT_" := closes_of_mem hneedle (by decide)
  have hname : Quiet (Hooks.defineStem h) (q ++ " MUT_") :=
    hblank.quiet_append (contains_of_tag (tag_suffix_defineStem h) hq)
  refine ⟨fun y => ?_⟩
  rw [String.toList_append, silent_append]
  refine ⟨?_, hname.silent y⟩
  have hstem : (Hooks.defineStem h).toList = "#define ".toList ++ h.tag.toList := by
    rw [Hooks.defineStem, String.toList_append]
  have hbehind : (q ++ " MUT_").toList ++ y = q.toList ++ ' ' :: ("MUT_".toList ++ y) := by
    rw [String.toList_append, List.append_assoc]
    rfl
  rw [show "\n#define ".toList = ['\n'] ++ ('#' :: "define ".toList) from rfl, hstem, silent_append]
  refine ⟨silent_of_not_mem (by decide), fun hprefix => ?_, silent_of_not_mem (by decide)⟩
  refine not_prefix_of_tag hh hq ("MUT_".toList ++ y) ((List.prefix_append_right_inj
    "#define ".toList).mp ?_)
  rwa [← hbehind]

theorem SourceUnit.IsUnhooked.spares_defineStem (hu : u.IsUnhooked) (hh : h ∈ Hooks.all) :
    u.Spares (Hooks.defineStem h) := by
  intro q hq
  have hcolon : ∀ h ∈ Hooks.all, cutsOff (Hooks.defineStem h).toList ":".toList = true := by decide
  have hquiet : Quiet (Hooks.defineStem h) ":" := quiet_piece (defineStem_mem hh) (by decide)
  have htag := hu q hq h hh
  have happart := contains_of_tag (tag_suffix_defineStem h) htag
  exact ⟨happart, (Closes.mk (hcolon h hh) hquiet).quiet_append happart, quiet_definedName hh htag⟩

/-! ## Texts that close hooks and define none -/

namespace Hooks

/-- **The text closes hooks and defines none**: it can be told apart from what follows it, and each
stem of a closer in it has a number behind it. -/
structure Closing (text : String) : Prop where
  unspaced : Unspaced text
  closers : ∀ h ∈ all, Numbered (closerStem h) ')' text (closersIn h text)
  defines : ∀ h ∈ all, Quiet (defineStem h) text

/-- A text with such numbers behind its closers. -/
theorem Closing.of_numbered {numbers : Hook → List Nat} (unspaced : Unspaced text)
    (closers : ∀ h ∈ all, Numbered (closerStem h) ')' text (numbers h))
    (defines : ∀ h ∈ all, Quiet (defineStem h) text) :
    Closing text ∧ ∀ h ∈ all, closersIn h text = numbers h := by
  have hread : ∀ h ∈ all, closersIn h text = numbers h := fun h hh =>
    (closers h hh).numbersIn_eq (by decide)
  exact ⟨⟨unspaced, fun h hh => by rw [hread h hh]; exact closers h hh, defines⟩, hread⟩

/-- **Texts put together** close what each of them closes. -/
theorem closing_join {α : Type} {f : α → String} {l : List α} (hl : ∀ a ∈ l, Closing (f a)) :
    Closing (String.join (l.map f)) ∧
      ∀ h ∈ all, closersIn h (String.join (l.map f)) = l.flatMap fun a => closersIn h (f a) := by
  refine Closing.of_numbered (unspaced_join fun s hs => ?_) (fun h hh => ?_) fun h hh =>
    quiet_join fun s hs => ?_
  · obtain ⟨a, ha, rfl⟩ := List.mem_map.mp hs
    exact (hl a ha).unspaced
  · exact numbered_join fun a ha => ⟨(hl a ha).closers h hh, (hl a ha).unspaced⟩
  · obtain ⟨a, ha, rfl⟩ := List.mem_map.mp hs
    exact (hl a ha).defines h hh

theorem Closing.definesIn_eq_nil (hclosing : Closing text) (hh : h ∈ all) :
    definesIn h text = [] := by
  rw [definesIn, numbersIn, (hclosing.defines h hh).rests_eq_nil]
  rfl

end Hooks

/-! ## Every form of inserted text -/

/-- **A foreign text in front of a parenthesis** can be told apart from what follows without a
blank. -/
theorem numbered_append_paren (hh : h ∈ Hooks.all) (hq : contains q (Hooks.closerStem h) = false) :
    Numbered (Hooks.closerStem h) ')' (q ++ ")") [] := by
  have hneedle := closerStem_mem hh
  refine ⟨fun y hy => ?_, ?_⟩
  · have hstem : (Hooks.closerStem h).toList = ')' :: ' ' :: h.tag.toList := by
      rw [Hooks.closerStem, String.toList_append]
      rfl
    have hsilent : Silent (Hooks.closerStem h).toList (q ++ ")").toList y.toList := by
      rw [String.toList_append, silent_append]
      refine ⟨silent_of_cutsOff (cutsOff_paren hneedle) hq, fun hprefix => hy ?_, True.intro⟩
      rw [hstem] at hprefix
      obtain ⟨more, hmore⟩ := (List.cons_prefix_cons.mp hprefix).2
      rw [List.nil_append] at hmore
      rw [← hmore]
      rfl
    rw [rests_append_paren hneedle hq, rests, String.toList_append,
      restsAfter_append_of_silent hsilent]
    rfl
  · rw [rests_append_paren hneedle hq]
    exact .nil

/-- **The closer of a hook** closes it, and no other hook. -/
theorem numbered_closer (hhook : hook ∈ Hooks.all) (hh : h ∈ Hooks.all) (id : Nat) :
    Numbered (Hooks.closerStem h) ')' (Hooks.closerStem hook ++ toString id ++ ")")
      (Draw.numbersOf h.category [⟨hook.category, id⟩]) := by
  have hneedle := closerStem_mem hh
  have hparen : Unspaced ")" := by decide
  have hspace : Unspaced (toString id ++ ")") := unspaced_append (unspaced_toString id) hparen
  have hend : Numbered (Hooks.closerStem h) ')' (toString id ++ ")") [] :=
    numbered_append_paren hh <| (contains_eq_false_iff (needle_ne_nil hneedle)).mpr
      (quiet_number hneedle id).rests_eq_nil
  rw [String.append_assoc, Draw.numbersOf_cons]
  by_cases heq : hook.category = h.category
  · obtain rfl := Hooks.category_injective hhook hh heq
    have hstem := separable_needle (needle_ne_nil hneedle)
    rw [if_pos rfl]
    refine ⟨hstem.severable.append hend.severable hspace, ?_⟩
    rw [rests_needle_append (needle_ne_nil hneedle)]
    refine .cons ?_ hend.starts
    rw [StartsWith, String.toList_append]
    exact List.prefix_rfl
  · have hinjective : ∀ g ∈ Hooks.all, ∀ h ∈ Hooks.all,
        Hooks.closerStem h = Hooks.closerStem g → g.category = h.category := by
      decide
    have hother := quiet_closerStem hhook hneedle fun hstem =>
      heq (hinjective hook hhook h hh hstem)
    rw [if_neg heq]
    exact hend.quiet_append hother

/-- **No inserted text starts with a blank.** -/
theorem unspaced_of_startsAmong (h : StartsAmong openings text) : Unspaced text := fun hhead =>
  absurd (h ' ' hhead) (by decide)

/-- Among the categories of hooks are those of no other text in a parenthesis. -/
theorem numbersOf_eq_nil (hh : h ∈ Hooks.all) (hnone : ∀ x ∈ draws, x.category ∉ closedCategories) :
    Draw.numbersOf h.category draws = [] := by
  rw [Draw.numbersOf, List.filter_eq_nil_iff.mpr fun x hx => ?_]
  · rfl
  · rw [decide_eq_true_iff]
    intro heq
    exact hnone x hx (heq ▸ category_mem_closed hh)

/-- **The closers in inserted text** are those of the hooks whose numbers it was made with. -/
theorem Inserted.numbered (h : Inserted u exprs draws text) (hu : u.IsUnhooked)
    (hhook : hook ∈ Hooks.all) :
    Numbered (Hooks.closerStem hook) ')' text (Draw.numbersOf hook.category draws) := by
  have hneedle := closerStem_mem hhook
  have hmarker : ∀ hook ∈ Hooks.all, Hooks.closerStem hook ≠ markerStart := by decide
  have hflags : ∀ hook ∈ Hooks.all, ∀ c ∈ Tracing.flagCategories,
      Hooks.closerStem hook ≠ Probe.flagStem c := by
    decide
  have hspares := hu.spares_closerStem hhook
  by_cases hnone : ∀ x ∈ draws, x.category ∉ closedCategories
  · rw [numbersOf_eq_nil hhook hnone]
    exact numbered_of_quiet <| h.quiet hneedle (hmarker hook hhook) hspares
      (fun c hc heq => absurd heq (hflags hook hhook c hc)) (.inr hnone)
  obtain ⟨x, hx⟩ := not_forall.mp hnone
  obtain ⟨hx, hclosed⟩ := Classical.not_imp.mp hx
  have hclosed := not_not.mp hclosed
  cases h with
  | fixed known | forwarded quoted => exact absurd hx List.not_mem_nil
  | marked id known leads quoted =>
    have hall : ∀ p ∈ markerKinds, p.1 ∉ closedCategories := by decide
    obtain rfl := List.mem_singleton.mp hx
    exact absurd hclosed (hall _ known)
  | probed id known leads format quoted within evaluated =>
    have hall : ∀ p ∈ probeKinds, p.1 ∉ closedCategories := by decide
    obtain rfl := List.mem_singleton.mp hx
    exact absurd hclosed (hall _ known)
  | closing id known => exact numbered_closer known hhook id
  | @moved name type id isInitialized quoted element innermost =>
    have hheap : ∀ hook ∈ Hooks.all, Category.heap ≠ hook.category := by decide
    have hhead := quiet_heapHead hneedle (hmarker hook hhook) id isInitialized hspares quoted element
    have hparts := (numbered_append_paren hhook (hspares _ innermost).apart).quiet_append hhead
    simp only [String.append_assoc] at hparts
    rwa [heapCopy_eq, Draw.numbersOf_cons, if_neg (hheap hook hhook)]
  | freed calls quoted =>
    have hfree : Category.free ∉ closedCategories := by decide
    obtain ⟨call, -, rfl⟩ := List.mem_map.mp hx
    exact absurd hclosed hfree

/-- **A text inserted on the way through a file** closes the hooks whose numbers it was made with,
and defines none. -/
theorem Inserted.closes (h : Inserted u exprs draws text) (hu : u.IsUnhooked) :
    Hooks.Closing text ∧
      ∀ hook ∈ Hooks.all, Hooks.closersIn hook text = Draw.numbersOf hook.category draws := by
  refine Hooks.Closing.of_numbered (unspaced_of_startsAmong h.startsAmong) (fun hook hhook => h.numbered hu hhook)
    fun hook hhook => ?_
  have hneedles : ∀ hook ∈ Hooks.all, Hooks.defineStem hook ≠ markerStart ∧
      (∀ c ∈ Tracing.flagCategories, Hooks.defineStem hook ≠ Probe.flagStem c) ∧
        ∀ other ∈ Hooks.all, Hooks.defineStem hook ≠ Hooks.closerStem other := by
    decide
  obtain ⟨hmarker, hflags, hclosers⟩ := hneedles hook hhook
  exact h.quiet (defineStem_mem hhook) hmarker (hu.spares_defineStem hhook)
    (fun c hc heq => absurd heq (hflags c hc)) (.inl hclosers)

/-- **Lines of other rules** at the start of a file close no hook and define none. -/
theorem Heading.closes (h : Heading ruleName text) (hother : ruleName ≠ Hooks.definitionRule.name) :
    Hooks.Closing text ∧ ∀ hook ∈ Hooks.all, Hooks.closersIn hook text = [] := by
  have hneedles : ∀ hook ∈ Hooks.all, ∀ c ∈ Tracing.flagCategories,
      Hooks.closerStem hook ≠ Probe.flagStem c ∧ Hooks.defineStem hook ≠ Probe.flagStem c := by
    decide
  refine Hooks.Closing.of_numbered ?_ (fun hook hhook => numbered_of_quiet ?_) fun hook hhook => ?_
  · exact unspaced_of_startsAmong h.startsAmong
  · exact h.quiet (closerStem_mem hhook) (fun _ c hc => (hneedles hook hhook c hc).1)
      fun hname => absurd hname hother
  · exact h.quiet (defineStem_mem hhook) (fun _ c hc => (hneedles hook hhook c hc).2)
      fun hname => absurd hname hother

end ProbeWeaver
