import ProbeWeaver.Proofs.Tree.Places
import ProbeWeaver.Query.Finding

/-!
# Proofs/Query/Captures — what every match of a pattern names

A match names places of the tree that was searched, whatever the pattern; what it names is of the
kind and stands where the pattern says (`Pattern.Names`); and a name that stands on every branch of
the pattern (`Pattern.binds`) is a name of every match.

* `cover_findings` — these facts for the findings of a query.
-/

namespace ProbeWeaver

variable {t : Tree} {n : Node} {name : String} {w : Way}

/-! ## Names that no match leaves out -/

mutual

/-- **Every way of the shape gives the name.** -/
def Shape.binds (name : String) : Shape → Bool
  | .node _ _ names children => names.contains name || Shape.bindsBelow name children

/-- Some place below gives the name, whichever of its shapes it takes. -/
def Shape.bindsBelow (name : String) : List (List Shape) → Bool
  | [] => false
  | options :: others => Shape.bindsAll name options || Shape.bindsBelow name others

/-- Each of the shapes gives the name. -/
def Shape.bindsAll (name : String) : List Shape → Bool
  | [] => true
  | s :: ss => s.binds name && Shape.bindsAll name ss

end

/-- **Every match of the pattern gives the name.** -/
def Pattern.binds (name : String) (p : Pattern) : Bool := Shape.bindsAll name p.shapes

/-- **Every match of the query gives the name.** -/
def Query.binds (name : String) (q : Query) : Bool := q.patterns.all (·.binds name)

theorem binds_of_mem {s : Shape} : ∀ {ss : List Shape}, s ∈ ss →
    Shape.bindsAll name ss = true → s.binds name = true
  | _ :: _, hs, h => by
      rw [Shape.bindsAll, Bool.and_eq_true_iff] at h
      rcases List.mem_cons.mp hs with rfl | hs
      · exact h.1
      · exact binds_of_mem hs h.2

/-! ## Names that some match may give -/

mutual

/-- **Some way of the shape may give the name.** -/
def Shape.mentions (name : String) : Shape → Bool
  | .node _ _ names children => names.contains name || Shape.mentionsBelow name children

/-- Some shape of some place below may give the name. -/
def Shape.mentionsBelow (name : String) : List (List Shape) → Bool
  | [] => false
  | options :: others => Shape.mentionsAny name options || Shape.mentionsBelow name others

/-- Some of the shapes may give the name. -/
def Shape.mentionsAny (name : String) : List Shape → Bool
  | [] => false
  | s :: ss => s.mentions name || Shape.mentionsAny name ss

end

/-- **Some match of the query may give the name.** -/
def Query.mentions (name : String) (q : Query) : Bool :=
  q.patterns.any fun p => Shape.mentionsAny name p.shapes

/-! ## What a name stands for -/

/-- **The node is what the shape asks for**: of the kind, and in the field. -/
structure Shape.Asks (test : NodeTest) (field : Option Field) (n : Node) : Prop where
  kind : ∀ k, test = .kind k → n.kind = k
  field : ∀ f, field = some f → n.tree.field = some f

mutual

/-- **The shape at `n` names `m` so**: `m` is `n` itself or is named by a shape below; and `n` is
what the shape asks for. -/
def Shape.Names (name : String) (m : Node) : Shape → Node → Prop
  | .node test field names children, n =>
    Shape.Asks test field n ∧
      ((names.contains name = true ∧ m = n) ∨ ∃ c ∈ n.children, Shape.NamesBelow name m children c)

/-- A shape of some place below names `m` so. -/
def Shape.NamesBelow (name : String) (m : Node) : List (List Shape) → Node → Prop
  | [], _ => False
  | options :: others, c => Shape.NamesAny name m options c ∨ Shape.NamesBelow name m others c

/-- One of the shapes names `m` so. -/
def Shape.NamesAny (name : String) (m : Node) : List Shape → Node → Prop
  | [], _ => False
  | s :: ss, c => s.Names name m c ∨ Shape.NamesAny name m ss c

end

/-- Some place is named so by the pattern. -/
def Pattern.Names (name : String) (m : Node) (p : Pattern) : Prop :=
  ∃ n, Shape.NamesAny name m p.shapes n

mutual

/-- **Only a name that the shape has** stands for something. -/
theorem mentions_of_names {m : Node} : ∀ {s : Shape} {n : Node}, s.Names name m n →
    s.mentions name = true
  | .node _ _ names children, n, h => by
      rw [Shape.mentions, Bool.or_eq_true_iff]
      obtain ⟨-, ⟨hname, -⟩ | ⟨c, -, hbelow⟩⟩ := h
      · exact .inl hname
      · exact .inr (mentionsBelow_of_namesBelow hbelow)

theorem mentionsBelow_of_namesBelow {m : Node} : ∀ {below : List (List Shape)} {c : Node},
    Shape.NamesBelow name m below c → Shape.mentionsBelow name below = true
  | options :: others, c, h => by
      rw [Shape.mentionsBelow, Bool.or_eq_true_iff]
      exact h.imp mentionsAny_of_namesAny mentionsBelow_of_namesBelow

theorem mentionsAny_of_namesAny {m : Node} : ∀ {ss : List Shape} {c : Node},
    Shape.NamesAny name m ss c → Shape.mentionsAny name ss = true
  | s :: ss, c, h => by
      rw [Shape.mentionsAny, Bool.or_eq_true_iff]
      exact h.imp mentions_of_names mentionsAny_of_namesAny

end

theorem namesAny_of_mem {s : Shape} {m : Node} : ∀ {ss : List Shape}, s ∈ ss → s.Names name m n →
    Shape.NamesAny name m ss n
  | _ :: _, hs, h => by
      rcases List.mem_cons.mp hs with rfl | hs
      · exact .inl h
      · exact .inr (namesAny_of_mem hs h)

/-! ## Captures that cover what is asked for -/

/-- **The captures hold true**, each of its name and node, and give every name that is asked for. -/
structure Captures.Cover (captures : Captures) (asked : String → Bool)
    (holds : String → Node → Prop) : Prop where
  holds : ∀ c ∈ captures, holds c.1 c.2
  binds : ∀ name, asked name = true → ∃ m, (name, m) ∈ captures

theorem Captures.Cover.mono {cs : Captures} {f g : String → Bool} {P Q : String → Node → Prop}
    (h : cs.Cover f P) (hasked : ∀ name, g name = true → f name = true)
    (hholds : ∀ name m, P name m → Q name m) : cs.Cover g Q :=
  ⟨fun c hc => hholds c.1 c.2 (h.holds c hc), fun name hname => h.binds name (hasked name hname)⟩

theorem Captures.Cover.append {cs ds : Captures} {f g : String → Bool} {P : String → Node → Prop}
    (hc : cs.Cover f P) (hd : ds.Cover g P) :
    (cs ++ ds).Cover (fun name => f name || g name) P := by
  refine ⟨fun c hmem => ?_, fun name hname => ?_⟩
  · rcases List.mem_append.mp hmem with hmem | hmem
    · exact hc.holds c hmem
    · exact hd.holds c hmem
  · rcases Bool.or_eq_true_iff.mp hname with hname | hname
    · obtain ⟨m, hm⟩ := hc.binds name hname
      exact ⟨m, List.mem_append_left ds hm⟩
    · obtain ⟨m, hm⟩ := hd.binds name hname
      exact ⟨m, List.mem_append_right cs hm⟩

/-- The names of one node. -/
theorem Captures.cover_names (n : Node) (names : List String) :
    Captures.Cover (names.map (·, n)) (fun name => names.contains name)
      fun name m => names.contains name = true ∧ m = n := by
  refine ⟨fun c hc => ?_, fun name hname => ?_⟩
  · obtain ⟨name, hname, rfl⟩ := List.mem_map.mp hc
    exact ⟨List.contains_iff_mem.mpr hname, rfl⟩
  · exact ⟨n, List.mem_map.mpr ⟨name, List.contains_iff_mem.mp hname, rfl⟩⟩

/-! ## How ways are put together -/

/-- **A way from some node on** is a way at one of the nodes, followed by a way behind it. -/
theorem mem_waysFrom {isPlain : Bool} {here : Node → List Way}
    {others : Node → List Node → List Way} : ∀ {nodes : List Node},
    w ∈ waysFrom isPlain here others nodes →
      ∃ m rest u v, m ∈ nodes ∧ (∀ k ∈ rest, k ∈ nodes) ∧ u ∈ here m ∧ v ∈ others u.last rest ∧
        w = u.followedBy v
  | m :: rest, h => by
      rw [waysFrom] at h
      rcases List.mem_append.mp h with h | h
      · obtain ⟨u, hu, h⟩ := List.mem_flatMap.mp h
        obtain ⟨v, hv, rfl⟩ := List.mem_map.mp h
        exact ⟨m, rest, u, v, List.mem_cons_self, fun _ => List.mem_cons_of_mem m, hu, hv, rfl⟩
      · split at h
        · exact absurd h List.not_mem_nil
        · obtain ⟨m', rest', u, v, hm, hrest, hu, hv, rfl⟩ := mem_waysFrom h
          exact ⟨m', rest', u, v, List.mem_cons_of_mem m hm,
            fun k hk => List.mem_cons_of_mem m (hrest k hk), hu, hv, rfl⟩

/-- A way of some option is a way of one of them. -/
theorem mem_waysOfAny {others : Node → List Node → List Way} {nodes : List Node} :
    ∀ {shapes : List Shape}, w ∈ waysOfAny shapes others nodes →
      ∃ s ∈ shapes, w ∈ waysFrom s.isPlain s.ways others nodes
  | s :: ss, h => by
      rw [waysOfAny] at h
      rcases List.mem_append.mp h with h | h
      · exact ⟨s, List.mem_cons_self, h⟩
      · obtain ⟨s', hs', h⟩ := mem_waysOfAny h
        exact ⟨s', List.mem_cons_of_mem s hs', h⟩

/-- A way of a shape is at a node that it asks for, and starts from a way below the node. -/
theorem mem_ways {test : NodeTest} {field : Option Field} {names : List String}
    {children : List (List Shape)} (h : w ∈ (Shape.node test field names children).ways n) :
    Shape.Asks test field n ∧ ∃ v ∈ waysBelow children n n.children, w = v.under names n := by
  rw [Shape.ways] at h
  split at h
  · next haccepts =>
    obtain ⟨v, hv, rfl⟩ := List.mem_map.mp h
    obtain ⟨htest, hfield⟩ := Bool.and_eq_true_iff.mp haccepts
    refine ⟨⟨?_, ?_⟩, v, hv, rfl⟩
    · rintro k rfl
      exact beq_iff_eq.mp htest
    · rintro f rfl
      exact beq_iff_eq.mp hfield
  · exact absurd h List.not_mem_nil

/-! ## Ways cover their shapes -/

mutual

/-- **The ways of a shape** name places of the tree, as the shape says, and every name that the
shape binds. -/
theorem cover_ways : ∀ (s : Shape) {n : Node} {w : Way}, n.PlaceOf t → w ∈ s.ways n →
    w.captures.Cover (fun name => s.binds name) fun name m => m.PlaceOf t ∧ s.Names name m n
  | .node test field names children, n, w, hn, hw => by
      obtain ⟨hasks, v, hv, rfl⟩ := mem_ways hw
      have hbelow := cover_waysBelow children (fun m => hn.of_mem_children) hv
      refine .append ((Captures.cover_names n names).mono (fun _ => id) ?_)
        (hbelow.mono (fun _ => id) ?_)
      · rintro name m ⟨hname, rfl⟩
        exact ⟨hn, hasks, .inl ⟨hname, rfl⟩⟩
      · rintro name m ⟨hm, c, hc, hnames⟩
        exact ⟨hm, hasks, .inr ⟨c, hc, hnames⟩⟩

/-- The ways of shapes below a node. -/
theorem cover_waysBelow : ∀ (below : List (List Shape)) {last : Node} {nodes : List Node}
    {w : Way}, (∀ m ∈ nodes, m.PlaceOf t) → w ∈ waysBelow below last nodes →
      w.captures.Cover (fun name => Shape.bindsBelow name below)
        fun name m => m.PlaceOf t ∧ ∃ c ∈ nodes, Shape.NamesBelow name m below c
  | [], _, _, w, _, hw => by
      rw [waysBelow] at hw
      obtain rfl := List.mem_singleton.mp hw
      exact ⟨fun c hc => absurd hc List.not_mem_nil, nofun⟩
  | options :: others, _, nodes, w, hnodes, hw => by
      rw [waysBelow] at hw
      obtain ⟨s, hs, hw⟩ := mem_waysOfAny hw
      obtain ⟨m, rest, u, v, hm, hrest, hu, hv, rfl⟩ := mem_waysFrom hw
      have hhere := cover_waysOfMember options hs (hnodes m hm) hu
      have hbehind := cover_waysBelow others (fun k hk => hnodes k (hrest k hk)) hv
      refine .append (hhere.mono (fun _ => id) ?_) (hbehind.mono (fun _ => id) ?_)
      · exact fun name k hk => ⟨hk.1, m, hm, .inl hk.2⟩
      · rintro name k ⟨hk, c, hc, hnames⟩
        exact ⟨hk, c, hrest c hc, .inr hnames⟩

/-- The ways of one of several shapes. -/
theorem cover_waysOfMember : ∀ (ss : List Shape) {s : Shape} {n : Node} {w : Way}, s ∈ ss →
    n.PlaceOf t → w ∈ s.ways n → w.captures.Cover (fun name => Shape.bindsAll name ss)
      fun name m => m.PlaceOf t ∧ Shape.NamesAny name m ss n
  | [], _, _, _, hs, _, _ => absurd hs List.not_mem_nil
  | s :: ss, s', n, w, hs, hn, hw => by
      have hmem : s' = s ∨ s' ∈ ss := List.mem_cons.mp hs
      refine hmem.elim (fun heq => ?_) (fun hs' => ?_)
      · exact (cover_ways s hn (heq ▸ hw)).mono
          (fun name hname => (Bool.and_eq_true_iff.mp hname).1) fun name m hm => ⟨hm.1, .inl hm.2⟩
      · exact (cover_waysOfMember ss hs' hn hw).mono
          (fun name hname => (Bool.and_eq_true_iff.mp hname).2) fun name m hm => ⟨hm.1, .inr hm.2⟩

end

/-- The ways at a node, however they are searched for. -/
theorem cover_waysAt {s : Shape} (hn : n.PlaceOf t) (hw : w ∈ s.waysAt n) :
    w.captures.Cover (fun name => s.binds name) fun name m => m.PlaceOf t ∧ s.Names name m n := by
  rw [Shape.waysAt.eq_def] at hw
  split at hw
  · next names option options others =>
    split at hw
    · exact cover_ways _ hn hw
    · obtain ⟨x, hx, rfl⟩ := List.mem_map.mp hw
      obtain ⟨c, hc, hx⟩ := List.mem_flatMap.mp hx
      obtain ⟨o, ho, hx⟩ := List.mem_flatMap.mp hx
      obtain ⟨u, hu, hx⟩ := List.mem_flatMap.mp hx
      obtain ⟨v, hv, rfl⟩ := List.mem_map.mp hx
      have hchild := List.mem_reverse.mp hc
      have hhere := cover_waysOfMember _ ho (hn.of_mem_children hchild) hu
      have hbehind := cover_waysBelow others
        (fun m hm => hn.of_mem_children (List.mem_filter.mp hm).1) hv
      refine .append ((Captures.cover_names n names).mono (fun _ => id) ?_)
        (.append (hhere.mono (fun _ => id) ?_) (hbehind.mono (fun _ => id) ?_))
      · rintro name m ⟨hname, rfl⟩
        exact ⟨hn, ⟨nofun, nofun⟩, .inl ⟨hname, rfl⟩⟩
      · exact fun name m hm => ⟨hm.1, ⟨nofun, nofun⟩, .inr ⟨c, hchild, .inl hm.2⟩⟩
      · rintro name m ⟨hm, k, hk, hnames⟩
        exact ⟨hm, ⟨nofun, nofun⟩, .inr ⟨k, (List.mem_filter.mp hk).1, .inr hnames⟩⟩
  · exact cover_ways _ hn hw

/-- The settled ways are ways. -/
theorem mem_of_mem_settled {ws : List Way} (h : w ∈ Way.settled ws) : w ∈ ws := by
  have hdistinct : ∀ {vs : List Way}, w ∈ Way.distinct vs → w ∈ vs := by
    intro vs
    induction vs with
    | nil => exact id
    | cons v vs ih =>
      intro hw
      rw [Way.distinct] at hw
      rcases List.mem_cons.mp hw with rfl | hw
      · exact List.mem_cons_self
      · exact List.mem_cons_of_mem v (ih (List.mem_filter.mp hw).1)
  exact (List.mem_filter.mp (hdistinct h)).1

theorem cover_pattern_waysAt {p : Pattern} (hn : n.PlaceOf t) (hw : w ∈ p.waysAt n) :
    w.captures.Cover (fun name => p.binds name) fun name m => m.PlaceOf t ∧ p.Names name m := by
  obtain ⟨s, hs, hws⟩ := List.mem_flatMap.mp (mem_of_mem_settled hw)
  exact (cover_waysAt hn hws).mono (fun name hname => binds_of_mem hs hname)
    fun name m hm => ⟨hm.1, n, namesAny_of_mem hs hm.2⟩

/-! ## Findings -/

/-- Some pattern of the query names the place so. -/
def Query.Names (name : String) (m : Node) (q : Query) : Prop := ∃ p ∈ q.patterns, p.Names name m

theorem Query.Names.mentions {q : Query} {m : Node} (h : q.Names name m) :
    q.mentions name = true := by
  obtain ⟨p, hp, n, hn⟩ := h
  exact List.any_eq_true.mpr ⟨p, hp, mentionsAny_of_namesAny hn⟩

/-- **What a query finds**: its main node and its captures are places of the tree, named as the
query says, and every name that the query binds is captured. -/
theorem cover_findings {q : Query} {found : Finding} (hn : n.PlaceOf t)
    (h : found ∈ q.findings n) :
    (Query.mainName, found.root) ∈ found.captures ∧
      found.captures.Cover (fun name => q.binds name)
        fun name m => m.PlaceOf t ∧ q.Names name m := by
  obtain ⟨w, hw, hmatch⟩ := List.mem_filterMap.mp h
  obtain ⟨m, hm, hwm⟩ := List.mem_flatMap.mp (List.mem_mergeSort.mp hw)
  obtain ⟨p, hp, hwp⟩ := List.mem_flatMap.mp hwm
  have hcover := cover_pattern_waysAt (hn.of_mem_walk hm) hwp
  obtain ⟨root, hroot, rfl⟩ := Option.map_eq_some_iff.mp hmatch
  refine ⟨?_, hcover.mono (fun name hname => ?_) fun name m hm => ⟨hm.1, p, hp, hm.2⟩⟩
  · obtain ⟨front, rest, hreverse, -⟩ := List.lookup_eq_some_iff.mp hroot
    rw [← List.mem_reverse, hreverse]
    exact List.mem_append_right front List.mem_cons_self
  · exact List.all_eq_true.mp hname p hp

end ProbeWeaver
