import ProbeWeaver.Query.Finding
import ProbeWeaver.Query.Reader
import ProbeWeaver.Rule.Match

/-!
# Rule/Basic — rules that turn matches into edits

A `Rule` is a query, finders that name further nodes, filters, and edits anchored at named nodes.
Of several findings with one main node the first counts, before finders and filters are asked.
-/

namespace ProbeWeaver

/-- **Where an edit goes** relative to a named node. -/
inductive Anchor where
  | before (name : String)
  | after (name : String)
  | replace (name : String)
  | startOfFile
  deriving DecidableEq, Repr

/-- **When a rule runs** within its pass: over each file in turn, or after all files. -/
inductive Phase where
  | traversal | late
  deriving DecidableEq, Repr

/-- An edit of a rule: its place and its text. -/
structure EditTemplate where
  anchor : Anchor
  makeText : EditText

/-- **A rule.**  A query that does not compile is an error of the run that uses it. -/
structure Rule where
  name : String
  query : Except QueryError Query
  finders : List (String × Finder) := []
  filters : List Filter := []
  edits : List EditTemplate := []
  phase : Phase := .traversal

/-- Why a rule cannot be used. -/
structure UnusableRule where
  rule : String
  cause : QueryError
  deriving DecidableEq, Repr

/-- The wording of an unusable rule. -/
def UnusableRule.message (e : UnusableRule) : String := "rule " ++ e.rule ++ ": " ++ e.cause.message

namespace Rule

/-! ## Building rules -/

/-- A rule that searches for one pattern. -/
def ofPattern (name : String) (p : Pattern) : Rule :=
  { name := name, query := .ok (.ofPattern p) }

/-- Names one more node. -/
def bind (r : Rule) (name : String) (finder : Finder) : Rule :=
  { r with finders := r.finders ++ [(name, finder)] }

/-- Asks one more question. -/
def filter (r : Rule) (f : Filter) : Rule := { r with filters := r.filters ++ [f] }

/-- Makes one more edit. -/
def edit (r : Rule) (anchor : Anchor) (makeText : EditText) : Rule :=
  { r with edits := r.edits ++ [⟨anchor, makeText⟩] }

/-- Inserts before a named node. -/
def writeBefore (r : Rule) (name : String) (t : EditText) : Rule := r.edit (.before name) t

/-- Inserts after a named node. -/
def writeAfter (r : Rule) (name : String) (t : EditText) : Rule := r.edit (.after name) t

/-- Inserts at the start of the file. -/
def writeAtStart (r : Rule) (t : EditText) : Rule := r.edit .startOfFile t

/-- Runs after all files. -/
def lately (r : Rule) : Rule := { r with phase := .late }

/-! ## Matches -/

/-- The finders in turn; one that finds nothing rejects the match. -/
def bindAll (u : SourceUnit) : List (String × Finder) → Match → Option Match
  | [], m => some m
  | (name, finder) :: finders, m => do bindAll u finders (m.bind name (← finder m u))

/-- The match that a finding comes to, when finders and filters accept it. -/
def accept? (r : Rule) (u : SourceUnit) (found : Finding) : Option Match := do
  let m ← bindAll u r.finders ⟨r.name, found.root, found.captures.reverse⟩
  if r.filters.all fun f => f m u then some m else none

/-- Findings with different main nodes, the first of each. -/
def firstPerRoot : List Finding → List Finding
  | [] => []
  | found :: more => found :: (firstPerRoot more).filter fun m => !m.root.sameAs found.root

/-- **Every accepted match** in a file, at most one for each main node. -/
def matchesIn (r : Rule) (u : SourceUnit) : Except UnusableRule (List Match) :=
  match r.query with
  | .ok q => .ok ((firstPerRoot (q.findings u.root)).filterMap (r.accept? u))
  | .error cause => .error ⟨r.name, cause⟩

/-! ## Edits -/

/-- The byte range of an anchor. -/
def anchorRange (m : Match) : Anchor → Except MatchError (Nat × Nat)
  | .before name => do
    let n ← m.node name
    return (n.start, 0)
  | .after name => do
    let n ← m.node name
    return (n.stop, 0)
  | .replace name => do
    let n ← m.node name
    return (n.start, n.stop - n.start)
  | .startOfFile => .ok (0, 0)

/-- The edits of a match, in the order of the templates. -/
def editsOfTemplates (cx : EditContext) (m : Match) : List EditTemplate → Eval (List Edit)
  | [] => pure []
  | t :: ts => do
    let (offset, length) ← (anchorRange m t.anchor : Except MatchError (Nat × Nat))
    match ← t.makeText cx m with
    | some text => return ⟨offset, length, text⟩ :: (← editsOfTemplates cx m ts)
    | none => editsOfTemplates cx m ts

/-- **Every edit of a match.**  When one fails, none is made. -/
def editsOf (r : Rule) (cx : EditContext) (m : Match) : Eval (List Edit) :=
  editsOfTemplates cx m r.edits

end Rule

end ProbeWeaver
