import ProbeWeaver.Proofs.Rule.Offers

/-!
# Proofs/Rule/Insertive — rules that cannot fail and only insert

A rule is `Insertive` when its query is fit for use, its finders stay in the tree, and its edits are
insertions at names that every match has, with texts that can be made whenever those names are
there.  The ways to build a rule keep this up, so it is checked along the way a rule is written.

* `Rule.Insertive.exists_editsOf` — every accepted match gets its edits, each an insertion at the
  start of the file or at the edge of a construct.
-/

namespace ProbeWeaver

variable {α β : Type} {t : Tree} {u : SourceUnit} {m m' : Match} {r : Rule} {name : String}
  {n : Node} {bound : String → Bool}

/-! ## Evaluation that succeeds -/

/-- **The evaluation succeeds** whatever numbers are next. -/
def Succeeds (x : Eval α) : Prop := ∀ numbering, ∃ result, x.run numbering = .ok result

theorem succeeds_pure (a : α) : Succeeds (pure a : Eval α) := fun numbering => ⟨(a, numbering), rfl⟩

/-- A step that succeeds hands its value and its numbering on. -/
theorem run_bind_of_ok {x : Eval α} {f : α → Eval β} {a : α} {numbering numbering' : Numbering}
    (h : x.run numbering = .ok (a, numbering')) :
    (x >>= f).run numbering = (f a).run numbering' := by
  rw [StateT.run_bind, h]
  rfl

theorem succeeds_bind {x : Eval α} {f : α → Eval β} (hx : Succeeds x) (hf : ∀ a, Succeeds (f a)) :
    Succeeds (x >>= f) := by
  intro numbering
  obtain ⟨⟨a, numbering'⟩, ha⟩ := hx numbering
  obtain ⟨result, hresult⟩ := hf a numbering'
  exact ⟨result, (run_bind_of_ok ha).trans hresult⟩

theorem succeeds_get : Succeeds (get : Eval Numbering) :=
  fun numbering => ⟨(numbering, numbering), rfl⟩

theorem succeeds_draw (c : Category) : Succeeds (draw c) := fun numbering => ⟨numbering.next c, rfl⟩

theorem succeeds_ite {p : Prop} [Decidable p] {x y : Eval α} (hx : p → Succeeds x)
    (hy : ¬ p → Succeeds y) : Succeeds (if p then x else y) := by
  split
  · next h => exact hx h
  · next h => exact hy h

/-! ## Names of a match -/

/-- Every named node of the match is a place of the tree. -/
structure Match.Within (m : Match) (t : Tree) : Prop where
  root : m.root.PlaceOf t
  bindings : ∀ b ∈ m.bindings, b.2.PlaceOf t

/-- The match has a node of every name that is asked for. -/
def Match.Has (m : Match) (asked : String → Bool) : Prop :=
  ∀ name, asked name = true → (m.node? name).isSome = true

theorem Match.Within.node? (h : m.Within t) (hn : m.node? name = some n) : n.PlaceOf t := by
  rcases mem_of_node? hn with ⟨-, rfl⟩ | hn
  · exact h.root
  · exact h.bindings (name, n) hn

theorem Match.Has.exists_node (h : m.Has bound) (hname : bound name = true) :
    ∃ n, m.node? name = some n ∧ m.node name = .ok n := by
  obtain ⟨n, hn⟩ := Option.isSome_iff_exists.mp (h name hname)
  exact ⟨n, hn, by rw [Match.node, hn]⟩

/-- A name that the match has can be taken for granted. -/
theorem succeeds_node (h : m.Has bound) (hname : bound name = true) :
    Succeeds (m.node name : Except MatchError Node) := by
  obtain ⟨n, -, hn⟩ := h.exists_node hname
  exact fun numbering => ⟨(n, numbering), by rw [hn]; rfl⟩

/-- One more name. -/
theorem Match.Within.bind (h : m.Within t) (hn : n.PlaceOf t) : (m.bind name n).Within t := by
  refine ⟨h.root, fun b hb => ?_⟩
  rcases List.mem_cons.mp hb with rfl | hb
  · exact hn
  · exact h.bindings b hb

theorem isSome_node?_bind_self (m : Match) (name : String) (n : Node) :
    ((m.bind name n).node? name).isSome = true := by
  by_cases hroot : name = "root"
  · rw [Match.node?, if_pos hroot]
    rfl
  · rw [node?_bind_self hroot]
    rfl

theorem isSome_node?_bind {other : String} (h : (m.node? other).isSome = true) :
    ((m.bind name n).node? other).isSome = true := by
  by_cases hname : other = name
  · rw [hname]
    exact isSome_node?_bind_self m name n
  · rwa [node?_bind_of_ne hname]

/-! ## Insertive rules -/

/-- **An insertion at the edge of a construct**, or at the start of the file. -/
def Edit.InsertsAtEdge (t : Tree) (e : Edit) : Prop :=
  e.length = 0 ∧ (e.offset = 0 ∨ ∃ n : Node, n.PlaceOf t ∧ (e.offset = n.start ∨ e.offset = n.stop))

/-- The finder finds places of the tree. -/
def Finder.Stays (f : Finder) : Prop :=
  ∀ {u : SourceUnit} {t : Tree} {m : Match} {n : Node}, u.root = .root t → m.Within t →
    f m u = some n → n.PlaceOf t

/-- The text can be made for every match that has the names. -/
def EditText.Sure (makeText : EditText) (bound : String → Bool) : Prop :=
  ∀ (cx : EditContext) {m : Match}, m.Has bound → Succeeds (makeText cx m)

theorem EditText.Sure.mono {makeText : EditText} {bound' : String → Bool}
    (h : makeText.Sure bound) (hle : ∀ name, bound name = true → bound' name = true) :
    makeText.Sure bound' :=
  fun cx _ hm => h cx fun name hname => hm name (hle name hname)

theorem EditText.sure_literal (text : String) (bound : String → Bool) :
    (EditText.literal text).Sure bound := fun _ _ _ => succeeds_pure _

/-- The anchor is the place of an insertion and needs only the names. -/
def Anchor.inserts (bound : String → Bool) : Anchor → Bool
  | .before name | .after name => bound name
  | .replace _ => false
  | .startOfFile => true

namespace Rule

/-- **Every match of the rule has the name.** -/
def binds (r : Rule) (name : String) : Bool :=
  name == "root" || (match r.query with
    | .ok q => q.binds name
    | .error _ => false) || r.finders.any (·.1 == name)

/-- **A rule that cannot fail and only inserts.** -/
structure Insertive (r : Rule) : Prop where
  query : ∃ q, r.query = .ok q
  finders : ∀ f ∈ r.finders, Finder.Stays f.2
  anchors : ∀ e ∈ r.edits, e.anchor.inserts r.binds = true
  texts : ∀ e ∈ r.edits, e.makeText.Sure r.binds

/-! ### Ways to build one -/

theorem insertive_ofPattern (name : String) (p : Pattern) : (ofPattern name p).Insertive :=
  ⟨⟨_, rfl⟩, fun _ h => absurd h List.not_mem_nil, fun _ h => absurd h List.not_mem_nil,
    fun _ h => absurd h List.not_mem_nil⟩

theorem binds_bind {finder : Finder} {other : String} (h : r.binds other = true) :
    (r.bind name finder).binds other = true := by
  rw [binds, Bool.or_eq_true_iff] at h ⊢
  refine h.imp_right fun h => ?_
  rw [Rule.bind, List.any_append, h, Bool.true_or]

theorem Insertive.bind (h : r.Insertive) (name : String) {finder : Finder} (hf : finder.Stays) :
    (r.bind name finder).Insertive := by
  refine ⟨h.query, fun f hmem => ?_, fun e he => ?_, fun e he => ?_⟩
  · rcases List.mem_append.mp hmem with hmem | hmem
    · exact h.finders f hmem
    · obtain rfl := List.mem_singleton.mp hmem
      exact hf
  · have := h.anchors e he
    cases hanchor : e.anchor with
    | before other => rw [hanchor] at this; exact binds_bind this
    | after other => rw [hanchor] at this; exact binds_bind this
    | replace other => rw [hanchor] at this; exact this
    | startOfFile => rfl
  · exact (h.texts e he).mono fun _ => binds_bind

theorem Insertive.filter (h : r.Insertive) (f : Filter) : (r.filter f).Insertive :=
  ⟨h.query, h.finders, h.anchors, h.texts⟩

theorem Insertive.lately (h : r.Insertive) : r.lately.Insertive :=
  ⟨h.query, h.finders, h.anchors, h.texts⟩

theorem Insertive.edit (h : r.Insertive) {anchor : Anchor} {makeText : EditText}
    (ha : anchor.inserts r.binds = true) (ht : makeText.Sure r.binds) :
    (r.edit anchor makeText).Insertive := by
  refine ⟨h.query, h.finders, fun e he => ?_, fun e he => ?_⟩
  · rcases List.mem_append.mp he with he | he
    · exact h.anchors e he
    · obtain rfl := List.mem_singleton.mp he
      exact ha
  · rcases List.mem_append.mp he with he | he
    · exact h.texts e he
    · obtain rfl := List.mem_singleton.mp he
      exact ht

theorem Insertive.writeBefore (h : r.Insertive) {makeText : EditText} (hname : r.binds name = true)
    (ht : makeText.Sure r.binds) : (r.writeBefore name makeText).Insertive :=
  h.edit hname ht

theorem Insertive.writeAfter (h : r.Insertive) {makeText : EditText} (hname : r.binds name = true)
    (ht : makeText.Sure r.binds) : (r.writeAfter name makeText).Insertive :=
  h.edit hname ht

theorem Insertive.writeAtStart (h : r.Insertive) {makeText : EditText}
    (ht : makeText.Sure r.binds) : (r.writeAtStart makeText).Insertive :=
  h.edit rfl ht

/-! ## Matches of an insertive rule -/

/-- Finders that stay in the tree keep a match in it, keep its names, and add their own. -/
theorem bindAll_eq_some (hu : u.root = .root t) :
    ∀ {finders : List (String × Finder)} {m m' : Match}, (∀ f ∈ finders, Finder.Stays f.2) →
      m.Within t → bindAll u finders m = some m' →
        m'.Within t ∧ (∀ name, (m.node? name).isSome = true → (m'.node? name).isSome = true) ∧
          ∀ f ∈ finders, (m'.node? f.1).isSome = true
  | [], m, m', _, hm, h => by
      obtain rfl := Option.some.inj h
      exact ⟨hm, fun _ => id, fun _ hf => absurd hf List.not_mem_nil⟩
  | (name, finder) :: finders, m, m', hstays, hm, h => by
      obtain ⟨n, hn, h⟩ := Option.bind_eq_some_iff.mp h
      have hplace := hstays _ List.mem_cons_self hu hm hn
      obtain ⟨hm', hold, hnew⟩ := bindAll_eq_some hu
        (fun f hf => hstays f (List.mem_cons_of_mem _ hf)) (hm.bind hplace) h
      refine ⟨hm', fun other hother => hold other (isSome_node?_bind hother), fun f hf => ?_⟩
      rcases List.mem_cons.mp hf with rfl | hf
      · exact hold name (isSome_node?_bind_self m name n)
      · exact hnew f hf

/-- **A match that an insertive rule offers** lies in the tree and has every name that the rule
binds. -/
theorem Insertive.of_offers (h : r.Insertive) (hu : u.root = .root t) (hm : r.Offers u m) :
    m.Within t ∧ m.Has r.binds := by
  obtain ⟨q, found, hq, hfound, hbind⟩ := hm
  obtain ⟨hroot, hcover⟩ := cover_findings (hu ▸ Node.placeOf_root t) hfound
  have hstart : Match.Within ⟨r.name, found.root, found.captures.reverse⟩ t :=
    ⟨(hcover.holds _ hroot).1, fun b hb => (hcover.holds b (List.mem_reverse.mp hb)).1⟩
  obtain ⟨hwithin, hold, hnew⟩ := bindAll_eq_some hu h.finders hstart hbind
  refine ⟨hwithin, fun name hname => ?_⟩
  rw [binds, hq, Bool.or_eq_true_iff, Bool.or_eq_true_iff] at hname
  rcases hname with (hname | hname) | hname
  · rw [Match.node?, if_pos (beq_iff_eq.mp hname)]
    rfl
  · obtain ⟨n, hn⟩ := hcover.binds name hname
    refine hold name ?_
    rw [Match.node?]
    split
    · rfl
    · exact List.lookup_isSome_iff.mpr ⟨(name, n), List.mem_reverse.mpr hn, beq_self_eq_true name⟩
  · obtain ⟨f, hf, hname⟩ := List.any_eq_true.mp hname
    obtain rfl := beq_iff_eq.mp hname
    exact hnew f hf

/-- **The matches of an insertive rule** can be listed, and each is as its edits need it. -/
theorem Insertive.exists_matchesIn (h : r.Insertive) (hu : u.root = .root t) :
    ∃ ms, r.matchesIn u = .ok ms ∧ ∀ m ∈ ms, m.Within t ∧ m.Has r.binds := by
  obtain ⟨q, hq⟩ := h.query
  have hms : r.matchesIn u = .ok ((firstPerRoot (q.findings u.root)).filterMap (r.accept? u)) := by
    rw [matchesIn, hq]
  exact ⟨_, hms, fun m hm => h.of_offers hu (offers_of_mem_matchesIn hms hm).1⟩

/-! ## Edits of an insertive rule -/

/-- The range of an inserting anchor is empty and stands at an edge. -/
theorem exists_anchorRange {anchor : Anchor} (hm : m.Within t) (hhas : m.Has bound)
    (ha : anchor.inserts bound = true) :
    ∃ offset, anchorRange m anchor = .ok (offset, 0) ∧
      (offset = 0 ∨ ∃ n : Node, n.PlaceOf t ∧ (offset = n.start ∨ offset = n.stop)) := by
  cases anchor with
  | before name =>
    obtain ⟨n, hn, hnode⟩ := hhas.exists_node ha
    exact ⟨n.start, by rw [anchorRange, hnode]; rfl, .inr ⟨n, hm.node? hn, .inl rfl⟩⟩
  | after name =>
    obtain ⟨n, hn, hnode⟩ := hhas.exists_node ha
    exact ⟨n.stop, by rw [anchorRange, hnode]; rfl, .inr ⟨n, hm.node? hn, .inr rfl⟩⟩
  | replace name => exact nomatch ha
  | startOfFile => exact ⟨0, rfl, .inl rfl⟩

/-- The templates of an insertive rule give insertions. -/
theorem exists_editsOfTemplates (cx : EditContext) (hm : m.Within t) (hhas : m.Has bound) :
    ∀ {templates : List EditTemplate}, (∀ e ∈ templates, e.anchor.inserts bound = true) →
      (∀ e ∈ templates, e.makeText.Sure bound) → ∀ numbering, ∃ edits numbering',
        (editsOfTemplates cx m templates).run numbering = .ok (edits, numbering') ∧
          ∀ e ∈ edits, e.InsertsAtEdge t
  | [], _, _, numbering => ⟨[], numbering, rfl, fun _ h => absurd h List.not_mem_nil⟩
  | e :: templates, hanchors, htexts, numbering => by
      obtain ⟨offset, hrange, hedge⟩ := exists_anchorRange hm hhas (hanchors e List.mem_cons_self)
      obtain ⟨⟨text, numbering₁⟩, htext⟩ := htexts e List.mem_cons_self cx hhas numbering
      obtain ⟨edits, numbering₂, hrest, hedits⟩ := exists_editsOfTemplates cx hm hhas
        (fun d hd => hanchors d (List.mem_cons_of_mem e hd))
        (fun d hd => htexts d (List.mem_cons_of_mem e hd)) numbering₁
      have hlift : (liftM (anchorRange m e.anchor) : Eval (Nat × Nat)).run numbering =
          .ok ((offset, 0), numbering) := by rw [hrange]; rfl
      cases text with
      | some text =>
        refine ⟨⟨offset, 0, text⟩ :: edits, numbering₂, ?_, fun d hd => ?_⟩
        · rw [editsOfTemplates, run_bind_of_ok hlift]
          refine (run_bind_of_ok htext).trans ?_
          refine (run_bind_of_ok hrest).trans rfl
        · rcases List.mem_cons.mp hd with rfl | hd
          · exact ⟨rfl, hedge⟩
          · exact hedits d hd
      | none =>
        refine ⟨edits, numbering₂, ?_, hedits⟩
        rw [editsOfTemplates, run_bind_of_ok hlift]
        exact (run_bind_of_ok htext).trans hrest

/-- **Every accepted match gets its edits**, and they are insertions at edges. -/
theorem Insertive.exists_editsOf (h : r.Insertive) (cx : EditContext) (hm : m.Within t)
    (hhas : m.Has r.binds) (numbering : Numbering) :
    ∃ edits numbering', (r.editsOf cx m).run numbering = .ok (edits, numbering') ∧
      ∀ e ∈ edits, e.InsertsAtEdge t :=
  exists_editsOfTemplates cx hm hhas h.anchors h.texts numbering

end Rule

end ProbeWeaver
