import ProbeWeaver.Proofs.Passes.Anchors
import ProbeWeaver.Proofs.Passes.Draws
import ProbeWeaver.Proofs.Passes.Quiet

/-!
# Proofs/Passes/Flags — who mentions flag arrays, and where

Of all texts inserted on the way through a file only probes mention the flag array of a category,
each the flag of the number that it was made with (`Inserted.uses`).  A template that draws numbers
of flagged categories goes before a slot or behind a declaration, never to the start of the file
(`Rule.Listed.sparesOrClears`).
-/

namespace ProbeWeaver

open Text
open Tracing (flagCategories)

variable {t : Tree} {u : SourceUnit} {cx : EditContext} {m : Match} {r : Rule} {n : Node}
  {c : Category} {exprs : List Node} {draws : List Draw} {text needle lead kind rest : String}
  {fields : List String} {P Q : Nat → Prop}

/-! ## Mentions of a flag array -/

/-- **The file's quotes mention no flag array.** -/
def SourceUnit.IsFlagless (u : SourceUnit) : Prop :=
  ∀ q ∈ u.quotes, contains q "print_flag_" = false

instance (u : SourceUnit) : Decidable u.IsFlagless :=
  inferInstanceAs (Decidable (∀ q ∈ u.quotes, _))

theorem flagStem_mem (hc : c ∈ flagCategories) : Probe.flagStem c ∈ needles :=
  List.mem_cons_of_mem _ (List.mem_append_left _ (List.mem_append_right _ (List.mem_map_of_mem hc)))

theorem flagStem_ne_defineStem (hc : c ∈ flagCategories) :
    ∀ h ∈ Hooks.all, Probe.flagStem c ≠ Hooks.defineStem h := by
  have hall : ∀ c ∈ flagCategories, ∀ h ∈ Hooks.all, Probe.flagStem c ≠ Hooks.defineStem h := by
    decide
  exact hall c hc

theorem SourceUnit.IsFlagless.spares (hu : u.IsFlagless) (hc : c ∈ flagCategories) :
    u.Spares (Probe.flagStem c) := by
  intro q hq
  have hstart : ∀ c ∈ flagCategories, "print_flag_".toList <+: (Probe.flagStem c).toList := by
    decide
  have hcolon : ∀ c ∈ flagCategories, cutsOff (Probe.flagStem c).toList ":".toList = true := by
    decide
  have hquiet : Quiet (Probe.flagStem c) ":" := quiet_piece (flagStem_mem hc) (by decide)
  have happart : contains q (Probe.flagStem c) = false := by
    have hq := hu q hq
    rw [contains, Bool.eq_false_iff] at hq ⊢
    exact fun hinfix => hq (hasInfix_of_longer (hstart c hc).isInfix hinfix)
  exact ⟨happart, (Closes.mk (hcolon c hc) hquiet).quiet_append happart,
    quiet_defined (flagStem_mem hc) (flagStem_ne_defineStem hc) happart⟩

namespace Probe

/-- **What a probe does with a flag**: it asks for its value, or counts it up. -/
def Reads (n : Nat) (rest : List Char) : Prop :=
  (toString n ++ "]!=2").toList <+: rest ∨ (toString n ++ "]++").toList <+: rest

/-- **The text mentions flags of the category only to use them**, and such as are allowed. -/
structure Uses (c : Category) (text : String) (P : Nat → Prop) : Prop where
  separable : Separable (flagStem c) text
  reads : ∀ rest ∈ rests (flagStem c) text, ∃ n, P n ∧ Reads n rest

theorem uses_of_quiet (h : Quiet (flagStem c) text) : Uses c text P where
  separable := h.separable
  reads := fun rest hrest => by
    rw [h.rests_eq_nil] at hrest
    exact absurd hrest List.not_mem_nil

theorem Uses.mono (h : Uses c text P) (hPQ : ∀ n, P n → Q n) : Uses c text Q where
  separable := h.separable
  reads := fun rest hrest => by
    obtain ⟨n, hn, hreads⟩ := h.reads rest hrest
    exact ⟨n, hPQ n hn, hreads⟩

/-- Where no use is allowed, there is no mention. -/
theorem Uses.rests_eq_nil (h : Uses c text P) (hP : ∀ n, ¬ P n) : rests (flagStem c) text = [] :=
  List.eq_nil_iff_forall_not_mem.mpr fun rest hrest => by
    obtain ⟨n, hn, -⟩ := h.reads rest hrest
    exact hP n hn

theorem Uses.append {other : String} (h : Uses c text P) (h' : Uses c other P) :
    Uses c (text ++ other) P where
  separable := h.separable.append h'.separable
  reads := fun rest hrest => by
    rw [h.separable, List.mem_append, List.mem_map] at hrest
    rcases hrest with ⟨front, hfront, rfl⟩ | hrest
    · obtain ⟨n, hn, hreads⟩ := h.reads front hfront
      have hlonger := List.prefix_append front other.toList
      exact ⟨n, hn, hreads.imp (·.trans hlonger) (·.trans hlonger)⟩
    · exact h'.reads rest hrest

/-- A mention, with what is done with the flag. -/
theorem uses_stem_append {n : Nat} (hstem : (flagStem c).toList ≠ []) (hn : P n)
    (hreads : Reads n text.toList) (h : Uses c text P) : Uses c (flagStem c ++ text) P where
  separable := (separable_needle hstem).append h.separable
  reads := fun rest hrest => by
    rw [rests_needle_append hstem] at hrest
    rcases List.mem_cons.mp hrest with rfl | hrest
    · exact ⟨n, hn, hreads⟩
    · exact h.reads rest hrest

theorem uses_join : ∀ {l : List String}, (∀ s ∈ l, Uses c s P) → Uses c (String.join l) P
  | [], _ => uses_of_quiet ⟨fun _ => True.intro⟩
  | s :: l, h => by
      rw [String.join_cons]
      exact (h s List.mem_cons_self).append (uses_join fun t ht => h t (List.mem_cons_of_mem s ht))

end Probe

/-! ## Every form of inserted text -/

section Forms

variable (hc : c ∈ flagCategories)
include hc

theorem flagStem_ne_markerStart : Probe.flagStem c ≠ markerStart := by
  have hall : ∀ c ∈ flagCategories, Probe.flagStem c ≠ markerStart := by decide
  exact hall c hc

theorem flagStem_ne_closerStem : ∀ hook ∈ Hooks.all, Probe.flagStem c ≠ Hooks.closerStem hook := by
  have hall : ∀ c ∈ flagCategories, ∀ hook ∈ Hooks.all,
      Probe.flagStem c ≠ Hooks.closerStem hook := by
    decide
  exact hall c hc

theorem flagStem_injective {d : Category} (hd : d ∈ flagCategories)
    (h : Probe.flagStem c = Probe.flagStem d) : c = d := by
  have hall : ∀ c ∈ flagCategories, ∀ d ∈ flagCategories,
      Probe.flagStem c = Probe.flagStem d → c = d := by
    decide
  exact hall c hc d hd h

/-- What no flagged number was drawn for mentions no flag. -/
theorem Inserted.uses_of_not_mem (h : Inserted u exprs draws text) (hu : u.IsFlagless)
    (hnone : ∀ id, ⟨c, id⟩ ∉ draws) : Probe.Uses c text P :=
  Probe.uses_of_quiet <| h.quiet (flagStem_mem hc) (flagStem_ne_markerStart hc) (hu.spares hc)
    (fun _ hd heq id hid => hnone id (flagStem_injective hc hd heq ▸ hid))
    (.inl (flagStem_ne_closerStem hc))

/-- **A probe mentions the flag of its number**, once to ask for it and once to count it up. -/
theorem uses_probed {before behind : String} {args : List String} (id : Nat)
    (hkind : kind ∈ allKinds) (hlead : lead ∈ ["", "\n"]) (hformat : (before, behind) ∈ probeFormats)
    (hu : u.Spares (Probe.flagStem c)) (hfields : ∀ f ∈ fields, f ∈ u.quotes)
    (hexprs : ∀ e ∈ exprs, e ∈ u.root.walk) (hargs : ∀ arg ∈ args, Argument u exprs arg) :
    Probe.Uses c (lead ++ Observation.markedProbe c id kind fields
      (before ++ toString id ++ behind) args) (· = id) := by
  have hneedle := flagStem_mem hc
  have hstart : Quiet (Probe.flagStem c) "*/if (" := quiet_piece hneedle (by decide)
  have hend : Quiet (Probe.flagStem c) "]++;\x7d\n" := quiet_piece hneedle (by decide)
  have hfront := quiet_of_marker hneedle (flagStem_ne_markerStart hc) id hkind hlead
    (fun f hf => (hu f (hfields f hf)).field) hstart
  have hbody := (setApart hneedle).quiet_statementBody id hu hexprs hargs hformat
  have hnumber := quiet_number hneedle id
  have hasked : "]!=2) \x7bprintf(\"" = "]!=2" ++ ") \x7bprintf(\"" := by decide
  have hcounted : "]++;\x7d\n" = "]++" ++ ";\x7d\n" := by decide
  have hcounts : Probe.Uses c (Probe.flagStem c ++ (toString id ++ "]++;\x7d\n")) (· = id) := by
    refine Probe.uses_stem_append (needle_ne_nil hneedle) rfl (.inr ?_)
      (Probe.uses_of_quiet (hnumber.append hend))
    rw [hcounted, ← String.append_assoc]
    exact toList_prefix_append _ _
  have hasks := Probe.uses_stem_append (n := id) (P := (· = id)) (needle_ne_nil hneedle) rfl
    (.inl ?_) ((Probe.uses_of_quiet (hnumber.append hbody)).append hcounts)
  · have huses := (Probe.uses_of_quiet hfront).append hasks
    simp only [String.append_assoc] at huses
    rw [probed_eq]
    exact huses
  · unfold statementBody
    rw [hasked, String.append_assoc, String.append_assoc, String.append_assoc, ← String.append_assoc]
    exact toList_prefix_append _ _

/-- **Only probes mention flag arrays**, with the numbers that they were made with. -/
theorem Inserted.uses (h : Inserted u exprs draws text) (hu : u.IsFlagless) :
    Probe.Uses c text fun n => ⟨c, n⟩ ∈ draws := by
  have hspares := hu.spares hc
  have hneedle := flagStem_mem hc
  by_cases hnone : ∀ id, ⟨c, id⟩ ∉ draws
  · exact h.uses_of_not_mem hc hu hnone
  obtain ⟨n, hn⟩ := not_forall_not.mp hnone
  cases h with
  | fixed known | forwarded quoted => exact absurd hn List.not_mem_nil
  | marked id known leads quoted =>
    have hend : Quiet (Probe.flagStem c) "*/\n" := quiet_piece hneedle (by decide)
    rw [marked_eq]
    exact Probe.uses_of_quiet (quiet_of_marker hneedle (flagStem_ne_markerStart hc) id
      (mem_allKinds_of_marker known).1 leads (fun f hf => (hspares f (quoted f hf)).field) hend)
  | @probed exprs d kind lead before behind fields args id known leads format quoted within
      evaluated =>
    obtain ⟨hkind, -, -⟩ := mem_allKinds_of_probe known
    obtain ⟨rfl, -⟩ := Draw.mk.inj (List.mem_singleton.mp hn)
    refine (uses_probed hc id hkind leads format hspares quoted within evaluated).mono ?_
    rintro _ rfl
    exact List.mem_cons_self
  | @closing hook id known =>
    obtain ⟨rfl, -⟩ := Draw.mk.inj (List.mem_singleton.mp hn)
    have hall : ∀ hook ∈ Hooks.all, hook.category ∉ flagCategories := by decide
    exact absurd hc (hall hook known)
  | moved id isInitialized quoted element innermost =>
    obtain ⟨rfl, -⟩ := Draw.mk.inj (List.mem_singleton.mp hn)
    exact absurd hc (by decide)
  | freed calls quoted =>
    obtain ⟨call, -, hcall⟩ := List.mem_map.mp hn
    obtain ⟨rfl, -⟩ := Draw.mk.inj hcall
    exact absurd hc (by decide)

end Forms

/-! ## Who draws numbers of flagged categories -/

/-- The categories that have no flag array. -/
def Tracing.unflagged : List Category := Category.all.filter (· ∉ flagCategories)

theorem Tracing.not_mem_unflagged (hc : c ∈ flagCategories) : c ∉ unflagged := by
  have hall : ∀ c ∈ flagCategories, c ∉ unflagged := by decide
  exact hall c hc

/-! ## Where flagged numbers go -/

/-- **The start of the file is clear**: no slot starts there, no declaration ends there, and bodies
of functions are blocks, so that their statements are slots. -/
structure SourceUnit.StartsClear (u : SourceUnit) : Prop where
  slots : ∀ n ∈ u.root.walk, n.isSlot = true → n.start ≠ 0
  declarations : ∀ n ∈ u.root.walk, n.kind = .declaration → n.stop ≠ 0
  bodies : u.BodiesAreBlocks

/-- The declaration of a declarator. -/
theorem Observation.means_declarator (ruleName : String) :
    (Rule.ofPattern ruleName Condition.eachDeclarator).Means "root" fun n =>
      ∃ decl, n.parent? = some decl ∧ decl.kind = .declaration := by
  refine Rule.means_ofPattern _ fun n hn => ?_
  obtain ⟨decl, ⟨hkind, ⟨hname, -⟩ | ⟨c, hc, hbelow⟩⟩ | hnone⟩ := hn
  · exact absurd hname (by decide)
  · rcases hbelow with (⟨-, ⟨-, rfl⟩ | ⟨c', -, hnone⟩⟩ | hnone) | hnone
    · exact ⟨decl, Node.parent?_of_mem_children hc, hkind.kind _ rfl⟩
    all_goals exact hnone.elim
  · exact hnone.elim

namespace Rule

/-- **No text of the template goes to the start** of a file whose start is clear. -/
def Clears (r : Rule) (e : EditTemplate) : Prop :=
  ∀ ⦃u : SourceUnit⦄ ⦃t : Tree⦄ ⦃m : Match⦄ ⦃offset length : Nat⦄, u.root = .root t →
    u.StartsClear → r.Offers u m → (∀ f ∈ r.filters, f m u = true) → m.Within t →
      anchorRange m e.anchor = .ok (offset, length) → offset ≠ 0

/-- A template whose texts go before slots. -/
theorem clears_of_isSlot {name : String} {makeText : EditText}
    (h : ∀ ⦃u : SourceUnit⦄ ⦃t : Tree⦄ ⦃m : Match⦄ ⦃n : Node⦄, u.root = .root t → u.StartsClear →
      r.Offers u m → (∀ f ∈ r.filters, f m u = true) → m.node? name = some n → n.isSlot = true) :
    r.Clears ⟨.before name, makeText⟩ := by
  intro u t m offset length hu hclear hm hfilters hwithin hrange
  obtain ⟨n, hn, hrange⟩ := bind_eq_ok_iff.mp hrange
  obtain ⟨rfl, -⟩ := Prod.mk.inj (Except.ok.inj hrange)
  have hn := node?_of_node hn
  exact hclear.slots n (by rw [hu]; exact (hwithin.node? hn).mem_walk)
    (h hu hclear hm hfilters hn)

theorem clears_slot {makeText : EditText}
    (hslot : r.Relates "stmt" fun main s => main.slotAround? = some s) :
    r.Clears ⟨.before "stmt", makeText⟩ :=
  clears_of_isSlot fun _ _ _ _ hu _ hm _ hn => List.find?_some (hslot hu hm hn)

/-- Each template of the rule draws no number of a flagged category, or clears the start. -/
def SparesOrClears (r : Rule) : Prop :=
  ∀ e ∈ r.edits, e.makeText.DrawsOf Tracing.unflagged ∨ r.Clears e

theorem DrawsOf.sparesOrClears {cs : List Category} (h : r.DrawsOf cs)
    (hspares : ∀ c ∈ cs, c ∈ Tracing.unflagged) : r.SparesOrClears :=
  fun e he => .inl (h.mono hspares e he)

theorem clears_of_single {e : EditTemplate} (hedits : r.edits = [e]) (h : r.Clears e) :
    r.SparesOrClears := by
  rw [SparesOrClears, hedits]
  exact fun e' he' => List.mem_singleton.mp he' ▸ .inr h

end Rule

open Rule

theorem Tracing.clears_siteRule : Tracing.siteRule.SparesOrClears :=
  clears_of_single rfl <| clears_of_isSlot fun u t m n _ _ _ hfilters hn => by
    obtain rfl := Option.some.inj hn
    have hsite := hfilters Tracing.isSite (.tail _ (.tail _ (.head _)))
    exact (Bool.and_eq_true_iff.mp hsite).1

theorem Observation.clears_of_mem_pointerSet (hr : r ∈ Observation.pointerSet.rules) :
    r.SparesOrClears := by
  simp only [Observation.pointerSet, RuleSet.rules, List.mem_cons, List.not_mem_nil, or_false] at hr
  rcases hr with rfl | rfl | rfl | rfl
  all_goals exact clears_of_single rfl (clears_slot (relates_slot _ _))

theorem Observation.clears_of_mem_memorySet (hr : r ∈ Observation.memorySet.rules) :
    r.SparesOrClears := by
  simp only [Observation.memorySet, RuleSet.rules, List.mem_cons, List.not_mem_nil, or_false] at hr
  rcases hr with rfl | rfl | rfl | rfl | rfl
  · exact clears_of_single rfl (clears_slot (relates_slot _ _))
  · exact clears_of_single rfl (clears_slot (relates_slot _ _))
  · exact clears_of_single rfl (clears_slot (relates_slot _ _))
  · refine clears_of_single rfl fun u t m offset length hu hclear hm _ hwithin hrange => ?_
    obtain ⟨n, hn, hrange⟩ := bind_eq_ok_iff.mp hrange
    obtain ⟨rfl, -⟩ := Prod.mk.inj (Except.ok.inj hrange)
    have hn := node?_of_node hn
    have hparent : ((Rule.ofPattern "value-memory-local" Condition.eachDeclarator).bind "decl"
        Condition.declaration).Relates "decl" fun main decl => main.parent? = some decl :=
      relates_bind (by decide) id
    obtain ⟨decl, hdecl, hkind⟩ :=
      ((Observation.means_declarator "value-memory-local").bind (by decide)) hu hm rfl
    obtain rfl := Option.some.inj (hdecl.symm.trans (hparent hu hm hn))
    exact hclear.declarations decl (by rw [hu]; exact (hwithin.node? hn).mem_walk) hkind
  · refine clears_of_single rfl <| clears_of_isSlot fun u t m n hu hclear hm _ hn => ?_
    obtain ⟨main, hmain, hs⟩ :=
      Option.bind_eq_some_iff.mp (Observation.startOfMain_of_offers hm hn)
    obtain ⟨body, hbody, hs⟩ := Option.bind_eq_some_iff.mp hs
    have hdefined := List.find?_some hmain
    have hkind := beq_iff_eq.mp (Bool.and_eq_true_iff.mp hdefined).1
    have hblock := hclear.bodies main (List.mem_of_find?_eq_some hmain) hkind body hbody
    have hchild := (List.mem_filter.mp (List.mem_of_find?_eq_some hs)).1
    rw [Node.isSlot, List.find?_some hs, Node.parent?_of_mem_children hchild]
    dsimp only
    rw [hblock]
    rfl

theorem Rule.Listed.sparesOrClears (h : r.Listed) : r.SparesOrClears := by
  cases h with
  | thenBranch | elseBranch | loopBody =>
    exact (Braces.drawsOf_wrapping rfl).sparesOrClears (by decide)
  | labelled mem => exact (Braces.drawsOf_of_mem mem).sparesOrClears (by decide)
  | block => exact Tracing.drawsOf_blockRule.sparesOrClears (by decide)
  | declaration =>
    exact (drawsOf_of_single rfl Tracing.drawsOf_varDeclMarker).sparesOrClears (by decide)
  | site => exact Tracing.clears_siteRule
  | entry => exact (drawsOf_of_single rfl Tracing.drawsOf_entryMarker).sparesOrClears (by decide)
  | flags => exact (drawsOf_of_single rfl Tracing.drawsOf_flagLines).sparesOrClears (by decide)
  | arrayIndex =>
    exact (drawsOf_of_single rfl Observation.drawsOf_arrayReference).sparesOrClears (by decide)
  | pointerIndex =>
    exact (drawsOf_of_single rfl Observation.drawsOf_pointerIndexReference).sparesOrClears
      (by decide)
  | memory mem => exact Observation.clears_of_mem_memorySet mem
  | pointer mem => exact Observation.clears_of_mem_pointerSet mem
  | integer | divider => exact clears_of_single rfl (clears_slot (relates_slot _ _))
  | init =>
    exact (drawsOf_of_single rfl Observation.drawsOf_initReference).sparesOrClears (by decide)
  | hookedIndex =>
    exact (Hooks.drawsOf_of_wrapped Hooks.arrayHook rfl).sparesOrClears (by decide)
  | hookedPointer mem => exact (Hooks.drawsOf_of_mem mem).sparesOrClears (by decide)
  | hookedOperands => exact Hooks.drawsOf_integerRule.sparesOrClears (by decide)
  | definitions =>
    exact (drawsOf_of_single rfl Hooks.drawsOf_definitions).sparesOrClears (by decide)
  | relocation lottery =>
    exact (Relocation.drawsOf_relocationRule lottery).sparesOrClears (by decide)
  | free lottery =>
    exact (drawsOf_of_single rfl (Relocation.drawsOf_freeing lottery)).sparesOrClears (by decide)
  | helpers =>
    exact (drawsOf_of_single rfl Relocation.drawsOf_helperLines).sparesOrClears (by decide)

end ProbeWeaver
