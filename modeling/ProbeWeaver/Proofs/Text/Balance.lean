import Mathlib.Algebra.BigOperators.Group.List.Basic
import ProbeWeaver.Proofs.Text.Occurrences
import ProbeWeaver.Proofs.Text.Weaving

/-!
# Proofs/Text/Balance — braces in pairs

A text rises by one at each opening brace and falls by one at each closing one.  Its braces are in
pairs when it ends where it starts and never goes below that (`IsBalanced`).

Texts woven into such a text leave it so when all that is put up to any point has not fallen either
(`isBalanced_weave`).  Of one text it is enough to know how far it rises, as long as it is lowest at
one of its ends (`LowAtEnds`).
-/

namespace ProbeWeaver.Text

variable {cs ds front : List Char} {s t : String} {edits more : List Edit} {e : Edit}
  {i j o : Nat} {own : Int}

/-! ## Rising and falling -/

/-- How far a character leads into blocks. -/
def braceStep (c : Char) : Int := if c = '\x7b' then 1 else if c = '\x7d' then -1 else 0

/-- **How far characters lead into blocks**: opening braces less closing ones. -/
def rise (cs : List Char) : Int := (cs.map braceStep).sum

@[simp] theorem rise_nil : rise [] = 0 := rfl

@[simp] theorem rise_cons (c : Char) (cs : List Char) : rise (c :: cs) = braceStep c + rise cs := by
  rw [rise, List.map_cons, List.sum_cons]
  rfl

@[simp] theorem rise_append (cs ds : List Char) : rise (cs ++ ds) = rise cs + rise ds := by
  rw [rise, List.map_append, List.sum_append]
  rfl

/-- **The braces of a text are in pairs**, each closing one behind its opening one. -/
def IsBalanced (s : String) : Prop := rise s.toList = 0 ∧ ∀ front ∈ s.toList.inits, 0 ≤ rise front

theorem isBalanced_iff : IsBalanced s ↔
    rise s.toList = 0 ∧ ∀ front, front <+: s.toList → 0 ≤ rise front := by
  simp only [IsBalanced, List.mem_inits]

/-- **What is opened is closed**: the list closes as many blocks as are open before it and in it. -/
def closesAll {α : Type} [DecidableEq α] (opens closes : α) : Nat → List α → Bool
  | depth, [] => depth == 0
  | depth, c :: cs =>
    if c = opens then closesAll opens closes (depth + 1) cs
    else if c = closes then depth != 0 && closesAll opens closes (depth - 1) cs
    else closesAll opens closes depth cs

theorem closesAll_iff : ∀ {cs : List Char} {depth : Nat}, closesAll '\x7b' '\x7d' depth cs = true ↔
    depth + rise cs = 0 ∧ ∀ front, front <+: cs → 0 ≤ depth + rise front
  | [], depth => by
      simp only [closesAll, beq_iff_eq, List.prefix_nil, forall_eq, rise_nil]
      omega
  | c :: cs, depth => by
      have hfronts (step : Int) (hstep : braceStep c = step) :
          (∀ front, front <+: c :: cs → (0 : Int) ≤ depth + rise front) ↔
            ∀ front, front <+: cs → (0 : Int) ≤ depth + step + rise front := by
        refine ⟨fun h front hfront => ?_, fun h front hfront => ?_⟩
        · have := h (c :: front) (List.cons_prefix_cons.mpr ⟨rfl, hfront⟩)
          rw [rise_cons, hstep] at this
          omega
        · rcases List.prefix_cons_iff.mp hfront with rfl | ⟨rest, rfl, hrest⟩
          · rw [rise_nil]
            omega
          · have := h rest hrest
            rw [rise_cons, hstep]
            omega
      rw [closesAll, rise_cons]
      split
      · next hopen =>
        have hstep : braceStep c = 1 := if_pos hopen
        rw [closesAll_iff, hfronts 1 hstep, hstep, Int.natCast_succ, Int.add_assoc]
      · next hopen =>
        split
        · next hclose =>
          have hstep : braceStep c = -1 := (if_neg hopen).trans (if_pos hclose)
          rw [Bool.and_eq_true_iff, bne_iff_ne, closesAll_iff, hfronts (-1) hstep, hstep]
          refine ⟨fun ⟨hne, hall, h⟩ => ⟨by omega, fun front hfront => ?_⟩, fun ⟨hall, h⟩ => ?_⟩
          · have := h front hfront
            omega
          · have hstart := h [] List.nil_prefix
            rw [rise_nil] at hstart
            refine ⟨by omega, by omega, fun front hfront => ?_⟩
            have := h front hfront
            omega
        · next hclose =>
          have hstep : braceStep c = 0 := (if_neg hopen).trans (if_neg hclose)
          rw [closesAll_iff, hfronts 0 hstep, hstep, Int.zero_add, Int.add_zero]

/-- Only a character of one byte has a byte below 128. -/
theorem eq_of_mem_utf8EncodeChar {c : Char} {b : UInt8} (hb : b ∈ String.utf8EncodeChar c)
    (hlt : b.toNat < 128) : c.val.toNat = b.toNat := by
  simp only [String.utf8EncodeChar] at hb
  split at hb
  · next h =>
    obtain rfl := List.mem_singleton.mp hb
    rw [UInt8.toNat_ofNat']
    omega
  · split at hb
    · simp only [List.mem_cons, List.not_mem_nil, or_false] at hb
      rcases hb with rfl | rfl <;> rw [UInt8.toNat_ofNat'] at hlt <;> omega
    · split at hb
      · simp only [List.mem_cons, List.not_mem_nil, or_false] at hb
        rcases hb with rfl | rfl | rfl <;> rw [UInt8.toNat_ofNat'] at hlt <;> omega
      · simp only [List.mem_cons, List.not_mem_nil, or_false] at hb
        rcases hb with rfl | rfl | rfl | rfl <;> rw [UInt8.toNat_ofNat'] at hlt <;> omega

theorem closesAll_append {α : Type} [DecidableEq α] {opens closes : α} {depth : Nat} {ys : List α} :
    ∀ {xs : List α}, opens ∉ xs → closes ∉ xs →
      closesAll opens closes depth (xs ++ ys) = closesAll opens closes depth ys
  | [], _, _ => rfl
  | x :: xs, hopens, hcloses => by
      rw [List.mem_cons, not_or] at hopens hcloses
      rw [List.cons_append, closesAll, if_neg (Ne.symm hopens.1), if_neg (Ne.symm hcloses.1)]
      exact closesAll_append hopens.2 hcloses.2

/-- **The bytes of characters** close what they open exactly when the characters do. -/
theorem closesAll_encode : ∀ {cs : List Char} {depth : Nat},
    closesAll 0x7b 0x7d depth (encode cs) = closesAll '\x7b' '\x7d' depth cs
  | [], depth => rfl
  | c :: cs, depth => by
      rw [show encode (c :: cs) = String.utf8EncodeChar c ++ encode cs from List.flatMap_cons,
        closesAll]
      have hother {d : Char} {b : UInt8} (hd : c ≠ d) (hval : d.val.toNat = b.toNat)
          (hlt : b.toNat < 128) : b ∉ String.utf8EncodeChar c := fun hb =>
        hd (Char.ext (UInt32.toNat.inj ((eq_of_mem_utf8EncodeChar hb hlt).trans hval.symm)))
      split
      · next hopen =>
        subst hopen
        exact closesAll_encode
      · next hopen =>
        split
        · next hclose =>
          subst hclose
          exact congrArg (depth != 0 && ·) closesAll_encode
        · next hclose =>
          rw [closesAll_append (hother hopen rfl (by decide)) (hother hclose rfl (by decide))]
          exact closesAll_encode

instance (s : String) : Decidable (IsBalanced s) :=
  decidable_of_iff (closesAll 0x7b 0x7d 0 (bytes s) = true) <| by
    rw [bytes_eq, closesAll_encode, closesAll_iff, isBalanced_iff]
    simp only [Nat.cast_zero, Int.zero_add]

theorem IsBalanced.append (hs : IsBalanced s) (ht : IsBalanced t) : IsBalanced (s ++ t) := by
  obtain ⟨hrise, hfronts⟩ := isBalanced_iff.mp hs
  obtain ⟨hrise', hfronts'⟩ := isBalanced_iff.mp ht
  rw [isBalanced_iff, String.toList_append]
  refine ⟨by rw [rise_append, hrise, hrise', Int.add_zero], fun front hfront => ?_⟩
  rcases prefix_append_cases hfront with hfront | ⟨d, rest, rfl, hrest⟩
  · exact hfronts front hfront
  · rw [rise_append, hrise, Int.zero_add]
    exact hfronts' _ hrest

/-- A pair of braces around a text. -/
theorem IsBalanced.braced (hs : IsBalanced s) : IsBalanced ("\x7b" ++ (s ++ "\x7d")) := by
  obtain ⟨hrise, hfronts⟩ := isBalanced_iff.mp hs
  have hchars : ("\x7b" ++ (s ++ "\x7d")).toList = '\x7b' :: (s.toList ++ ['\x7d']) := by
    rw [String.toList_append, String.toList_append]
    rfl
  rw [isBalanced_iff, hchars, rise_cons, rise_append, hrise]
  refine ⟨by decide, fun front hfront => ?_⟩
  rcases List.prefix_cons_iff.mp hfront with rfl | ⟨rest, rfl, hrest⟩
  · exact Int.le_refl 0
  · rw [rise_cons, show braceStep '\x7b' = 1 from rfl]
    rcases prefix_append_cases hrest with hrest | ⟨d, tail, rfl, htail⟩
    · have := hfronts rest hrest
      omega
    · have hlast : '\x7d' = d ∧ tail <+: [] := (List.cons_prefix_cons.mp htail).imp_left Eq.symm
      obtain ⟨rfl, hnone⟩ := hlast
      rw [List.prefix_nil.mp hnone, rise_append, hrise]
      decide

theorem isBalanced_join : ∀ {l : List String}, (∀ s ∈ l, IsBalanced s) → IsBalanced (String.join l)
  | [], _ => by decide
  | s :: l, h => by
      rw [String.join_cons]
      exact (h s List.mem_cons_self).append
        (isBalanced_join fun t ht => h t (List.mem_cons_of_mem s ht))

/-- A text without braces. -/
theorem isBalanced_of_plain (h : ∀ c ∈ s.toList, braceStep c = 0) : IsBalanced s := by
  have hzero (cs : List Char) (hcs : ∀ c ∈ cs, braceStep c = 0) : rise cs = 0 :=
    List.sum_eq_zero fun x hx => by
      obtain ⟨c, hc, rfl⟩ := List.mem_map.mp hx
      exact hcs c hc
  refine isBalanced_iff.mpr ⟨hzero _ h, fun front hfront => ?_⟩
  exact Int.le_of_eq (hzero front fun c hc => h c (hfront.subset hc)).symm

theorem isBalanced_toString (n : Nat) : IsBalanced (toString n) := by
  refine isBalanced_of_plain fun c hc => ?_
  have hdigit := isDigit_of_mem_toString hc
  rw [braceStep, if_neg (by rintro rfl; contradiction), if_neg (by rintro rfl; contradiction)]

/-- **The text is lowest at one of its ends.** -/
def LowAtEnds (s : String) : Prop :=
  ∀ front, front <+: s.toList → min 0 (rise s.toList) ≤ rise front

theorem IsBalanced.lowAtEnds (h : IsBalanced s) : LowAtEnds s := fun front hfront =>
  Int.le_trans (Int.min_le_left ..) ((isBalanced_iff.mp h).2 front hfront)

/-! ## Texts for offsets -/

/-- How far all that is put in front of an offset rises. -/
def riseBefore (edits : List Edit) (o : Nat) : Int :=
  (edits.map fun e => if e.offset < o then rise e.text.toList else 0).sum

/-- **How low the texts get at an offset**, counted from the start of the first one. -/
def lowAt (edits : List Edit) (o : Nat) : Int :=
  (edits.map fun e => if e.offset < o then rise e.text.toList else
    if e.offset = o then min 0 (rise e.text.toList) else 0).sum

theorem lowAt_append (edits more : List Edit) (o : Nat) :
    lowAt (edits ++ more) o = lowAt edits o + lowAt more o := by
  rw [lowAt, List.map_append, List.sum_append]
  rfl

theorem textAt_cons_eq_ite (e : Edit) (edits : List Edit) (o : Nat) :
    textAt (e :: edits) o = (if e.offset = o then e.text else "") ++ textAt edits o := by
  rw [← List.singleton_append, textAt_append, textAt_singleton_eq_ite]

/-- What is put at an offset does not go lower. -/
theorem lowAt_le : ∀ {edits : List Edit} {front : List Char}, (∀ e ∈ edits, LowAtEnds e.text) →
    front <+: (textAt edits o).toList → lowAt edits o ≤ riseBefore edits o + rise front
  | [], front, _, hfront => by
      rw [List.prefix_nil.mp (hfront : front <+: [])]
      exact Int.le_refl 0
  | e :: edits, front, hlow, hfront => by
      have hrest (front : List Char) (hfront : front <+: (textAt edits o).toList) :
          lowAt edits o ≤ riseBefore edits o + rise front :=
        lowAt_le (fun d hd => hlow d (List.mem_cons_of_mem e hd)) hfront
      have hzero := hrest [] (List.nil_prefix)
      rw [textAt_cons_eq_ite, String.toList_append] at hfront
      rw [lowAt, riseBefore, List.map_cons, List.map_cons, List.sum_cons, List.sum_cons]
      change _ + lowAt edits o ≤ _ + riseBefore edits o + _
      rw [rise_nil] at hzero
      by_cases heq : e.offset = o
      · rw [if_pos heq] at hfront
        rw [if_neg (by omega), if_pos heq, if_neg (by omega)]
        rcases prefix_append_cases hfront with hfront | ⟨d, rest, rfl, hmore⟩
        · have := hlow e List.mem_cons_self front hfront
          omega
        · have := hrest _ hmore
          rw [rise_append]
          omega
      · rw [if_neg heq] at hfront
        rw [if_neg heq]
        have := hrest front hfront
        omega

/-- **From one offset to the next** that something is put at. -/
theorem riseBefore_next (hij : i < j) (hgap : ∀ e ∈ edits, ¬ (i < e.offset ∧ e.offset < j)) :
    riseBefore edits j = riseBefore edits i + rise (textAt edits i).toList := by
  induction edits with
  | nil => rfl
  | cons e edits ih =>
    have hrest := ih fun d hd => hgap d (List.mem_cons_of_mem e hd)
    have he := hgap e List.mem_cons_self
    rw [textAt_cons_eq_ite, String.toList_append, rise_append, riseBefore, riseBefore, List.map_cons,
      List.map_cons, List.sum_cons, List.sum_cons]
    change _ + riseBefore edits j = _ + riseBefore edits i + _
    rw [hrest]
    rcases Nat.lt_trichotomy e.offset i with hlt | heq | hgt
    · rw [if_pos (by omega), if_pos hlt, if_neg (by omega)]
      rw [String.toList_empty, rise_nil]
      omega
    · rw [if_pos (by omega), if_neg (by omega), if_pos heq]
      omega
    · rw [if_neg (by omega), if_neg (by omega), if_neg (by omega), String.toList_empty, rise_nil]
      omega

/-! ## Texts woven in -/

/-- No edit splits one of the characters that stand from an offset on. -/
def SplitsNone (edits : List Edit) (i : Nat) (cs : List Char) : Prop :=
  ∀ e ∈ edits, ∀ front c back, cs = front ++ c :: back →
    ¬ (i + sizeOf front < e.offset ∧ e.offset < i + sizeOf front + c.utf8Size)

theorem SplitsNone.tail {c : Char} (h : SplitsNone edits i (c :: cs)) :
    SplitsNone edits (i + c.utf8Size) cs := by
  intro e he front d back hcs
  have := h e he (c :: front) d back (by rw [hcs]; rfl)
  rwa [sizeOf_cons, ← Nat.add_assoc] at this

theorem SplitsNone.gap {c : Char} (h : SplitsNone edits i (c :: cs)) (he : e ∈ edits) :
    ¬ (i < e.offset ∧ e.offset < i + c.utf8Size) := by
  have := h e he [] c cs rfl
  rwa [sizeOf_nil, Nat.add_zero] at this

/-- Boundaries split no characters. -/
theorem splitsNone_slice (hi : IsBoundary s i) (hj : IsBoundary s j) (hij : i ≤ j)
    (hedits : ∀ e ∈ edits, IsBoundary s e.offset) : SplitsNone edits i (slice s i j).toList := by
  intro e he front c back hcs ⟨hlt, hgt⟩
  obtain ⟨p, q, hs, hp, -⟩ := exists_slice hi hj hij
  obtain ⟨a, b, hab, hsize⟩ := isBoundary_iff.mp (hedits e he)
  have hslice : slice s i j = String.ofList front ++ String.ofList (c :: back) := by
    rw [← String.toList_inj, hcs, String.toList_append, String.toList_ofList, String.toList_ofList]
  have hfront : (p ++ String.ofList front).utf8ByteSize = i + sizeOf front := by
    rw [String.utf8ByteSize_append, hp]
    rfl
  have hcut : (p ++ String.ofList front) ++ (String.ofList (c :: back) ++ q) = a ++ b := by
    rw [← hab, hs, hslice]
    simp only [String.append_assoc]
  obtain ⟨w, rfl⟩ := exists_append_of_size_le hcut (by rw [hfront, hsize]; omega)
  rw [String.utf8ByteSize_append, hfront] at hsize
  -- what lies between starts with the character
  have hrest : w.toList ++ b.toList = c :: (back ++ q.toList) := by
    have := congrArg String.toList hcut
    simp only [String.toList_append, String.toList_ofList, List.append_assoc,
      List.append_cancel_left_eq] at this
    exact this.symm
  rcases List.append_eq_cons_iff.mp hrest with ⟨hnil, -⟩ | ⟨ws, hws, -⟩
  · have : w.utf8ByteSize = 0 := by rw [← sizeOf_toList, hnil, sizeOf_nil]
    omega
  · have : w.utf8ByteSize = c.utf8Size + sizeOf ws := by rw [← sizeOf_toList, hws, sizeOf_cons]
    omega

/-- How far a text rises into which others are woven. -/
theorem rise_putInto : ∀ {cs : List Char} {i : Nat}, SplitsNone edits i cs →
    riseBefore edits i + rise (putInto (textAt edits) i cs).toList =
      rise cs + riseBefore edits (i + sizeOf cs) + rise (textAt edits (i + sizeOf cs)).toList
  | [], i, _ => by
      rw [putInto, sizeOf_nil, rise_nil, Nat.add_zero, Int.zero_add]
  | c :: cs, i, hsplits => by
      have hc := c.utf8Size_pos
      have hrest := rise_putInto hsplits.tail
      rw [riseBefore_next (Nat.lt_add_of_pos_right hc) fun e he => hsplits.gap he] at hrest
      rw [putInto, String.toList_append, String.toList_append, String.toList_singleton, rise_append,
        rise_append, rise_cons, rise_cons, rise_nil, sizeOf_cons, ← Nat.add_assoc]
      omega

/-- **Texts that never fall** leave a text above what it starts from. -/
theorem le_rise_of_prefix (hlow : ∀ e ∈ edits, LowAtEnds e.text) (hat : ∀ o, 0 ≤ lowAt edits o) :
    ∀ {cs : List Char} {i : Nat} {own : Int}, SplitsNone edits i cs →
      (∀ front, front <+: cs → 0 ≤ own + rise front) →
        ∀ front, front <+: (putInto (textAt edits) i cs).toList →
          0 ≤ own + (riseBefore edits i + rise front)
  | [], i, own, _, hown, front, hfront => by
      have hstart := hown [] List.nil_prefix
      have hhere := lowAt_le hlow (hfront : front <+: (textAt edits i).toList)
      have := hat i
      rw [rise_nil] at hstart
      omega
  | c :: cs, i, own, hsplits, hown, front, hfront => by
      have hstart := hown [] List.nil_prefix
      have := hat i
      rw [rise_nil] at hstart
      rw [putInto, String.toList_append, String.toList_append, String.toList_singleton] at hfront
      rcases prefix_append_cases hfront with hfront | ⟨d, rest, rfl, hmore⟩
      · have hhere := lowAt_le hlow hfront
        omega
      · have hnext : d = c ∧ rest <+: (putInto (textAt edits) (i + c.utf8Size) cs).toList :=
          List.cons_prefix_cons.mp hmore
        obtain ⟨rfl, hmore⟩ := hnext
        have hrest := le_rise_of_prefix hlow hat hsplits.tail
          (fun front hfront => show 0 ≤ own + braceStep d + rise front by
            have := hown (d :: front) (List.cons_prefix_cons.mpr ⟨rfl, hfront⟩)
            rw [rise_cons] at this
            omega) rest hmore
        rw [riseBefore_next (Nat.lt_add_of_pos_right d.utf8Size_pos) fun e he => hsplits.gap he]
          at hrest
        rw [rise_append, rise_cons]
        omega

/-- How far texts rise one after the other. -/
def riseOf (edits : List Edit) : Int := (edits.map fun e => rise e.text.toList).sum

theorem riseOf_append (edits more : List Edit) :
    riseOf (edits ++ more) = riseOf edits + riseOf more := by
  rw [riseOf, List.map_append, List.sum_append]
  rfl

theorem riseBefore_start (h : ∀ e ∈ edits, i ≤ e.offset) : riseBefore edits i = 0 := by
  refine List.sum_eq_zero fun x hx => ?_
  obtain ⟨e, he, rfl⟩ := List.mem_map.mp hx
  exact if_neg (Nat.not_lt.mpr (h e he))

theorem riseBefore_end (h : ∀ e ∈ edits, e.offset ≤ j) :
    riseBefore edits j + rise (textAt edits j).toList = riseOf edits := by
  rw [← riseBefore_next (Nat.lt_succ_self j) fun e he ⟨hlt, hgt⟩ => by omega, riseBefore, riseOf]
  exact congrArg List.sum (List.map_congr_left fun e he =>
    if_pos (Nat.lt_succ_of_le (h e he)))

section Weave

variable (hi : IsBoundary s i) (hj : IsBoundary s j) (hij : i ≤ j)
  (hedits : ∀ e ∈ edits, IsBoundary s e.offset ∧ i ≤ e.offset ∧ e.offset ≤ j)

include hi hj hij hedits

/-- **How far a text rises** with others woven in. -/
theorem rise_weave : rise (weave (textAt edits) s i j).toList =
    rise (slice s i j).toList + riseOf edits := by
  have h := rise_putInto (splitsNone_slice hi hj hij fun e he => (hedits e he).1)
  rw [riseBefore_start fun e he => (hedits e he).2.1, sizeOf_slice hi hj hij] at h
  have hend := riseBefore_end fun e he => (hedits e he).2.2
  rw [weave]
  omega

/-- **Texts that never fall and end where they start** leave braces in pairs. -/
theorem isBalanced_weave (hown : IsBalanced (slice s i j)) (hlow : ∀ e ∈ edits, LowAtEnds e.text)
    (hat : ∀ o, 0 ≤ lowAt edits o) (hrise : riseOf edits = 0) :
    IsBalanced (weave (textAt edits) s i j) := by
  obtain ⟨hzero, hfronts⟩ := isBalanced_iff.mp hown
  refine isBalanced_iff.mpr ⟨?_, fun front hfront => ?_⟩
  · rw [rise_weave hi hj hij hedits, hzero, hrise, Int.add_zero]
  · have h := le_rise_of_prefix hlow hat
      (splitsNone_slice hi hj hij fun e he => (hedits e he).1)
      (fun front hfront => show 0 ≤ 0 + rise front by
        rw [Int.zero_add]
        exact hfronts front hfront) front hfront
    rwa [riseBefore_start fun e he => (hedits e he).2.1, Int.zero_add, Int.zero_add] at h

end Weave

end ProbeWeaver.Text
