import ProbeWeaver.FileTree.Basic

/-!
# SourceScope — the part of a file tree that a run may change

A scope has a root and excluded places.  A place in scope (`SourceScope.placeOf`) lies under the
root and under nothing that is excluded, by whole names and after links are followed.
`SourceScope.sources` collects the C sources that paths lead to, sorted and once each.
-/

namespace ProbeWeaver

/-- **A scope**: a root and what is left out below it.  Its places are free of links. -/
structure SourceScope where
  root : Place
  excluded : List Place := []
  deriving DecidableEq, Repr

/-- Why a path is refused. -/
inductive ScopeError where
  | outsideRoot (place root : Place)
  | excluded (place zone : Place)
  | unresolved (cause : FileError)
  deriving DecidableEq, Repr

/-- The wording of a refusal. -/
def ScopeError.message : ScopeError → String
  | .outsideRoot place root =>
    "Path is outside the source root: " ++ place.path ++ " (root: " ++ root.path ++ ")"
  | .excluded place zone =>
    "Path is in an excluded directory: " ++ place.path ++ " (excluded: " ++ zone.path ++ ")"
  | .unresolved cause => "Failed to canonicalize path: " ++ cause.message

namespace SourceScope

/-- The place of a path, seen from the root of the scope. -/
def resolve (scope : SourceScope) (tree : FileTree) (path : String) : Except FileError Place :=
  tree.resolve [] (joinPath scope.root.path path)

/-- Also refuses what lies under a path; one that leads nowhere is ignored. -/
def leavingOut (scope : SourceScope) (tree : FileTree) (path : String) : SourceScope :=
  match scope.resolve tree path with
  | .ok place => { scope with excluded := scope.excluded ++ [place] }
  | .error _ => scope

/-- The directory that holds the history of a source tree. -/
def historyName : String := ".git"

/-- **The scope of a root**, given by a path seen from `here`.  The root's history is excluded. -/
def ofRoot (tree : FileTree) (here : Place) (path : String) : Except ScopeError SourceScope :=
  match tree.resolve here path with
  | .ok root => .ok (leavingOut { root } tree historyName)
  | .error cause => .error (.unresolved cause)

/-- The place lies under something excluded. -/
def excludes (scope : SourceScope) (place : Place) : Bool :=
  scope.excluded.any fun other => place.isWithin other

/-- The place lies under the root and under nothing excluded. -/
def check (scope : SourceScope) (place : Place) : Except ScopeError Unit :=
  if place.isWithin scope.root then
    match scope.excluded.find? fun other => place.isWithin other with
    | some other => .error (.excluded place other)
    | none => .ok ()
  else .error (.outsideRoot place scope.root)

/-- **The place of a path that may be changed.** -/
def placeOf (scope : SourceScope) (tree : FileTree) (path : String) : Except ScopeError Place :=
  match scope.resolve tree path with
  | .error cause => .error (.unresolved cause)
  | .ok place => do
    scope.check place
    return place

/-! ## Discovery -/

mutual

/-- The C sources at a place with an entry, unless it is skipped. -/
def sourcesOf (skip : Place → Bool) (place : Place) : FileTree → List Place
  | .directory entries => if skip place then [] else sourcesAmong skip place entries
  | .file _ =>
    if !skip place && (place.getLast?.map isSourceName).getD false then [place] else []
  | .link _ => []

/-- The C sources among the entries of a directory. -/
def sourcesAmong (skip : Place → Bool) (place : Place) : List (String × FileTree) → List Place
  | [] => []
  | (name, t) :: entries =>
    sourcesOf skip (place ++ [name]) t ++ sourcesAmong skip place entries

end

/-- The sources that a path leads to: a file as given, or what lies in a directory. -/
def sourcesAt (scope : SourceScope) (tree : FileTree) (path : String) :
    Except ScopeError (List Place) := do
  let place ← scope.placeOf tree path
  match tree.get? place with
  | some (.directory entries) => return sourcesOf scope.excludes place (.directory entries)
  | _ => return [place]

/-- The sources that each path leads to in turn. -/
def sourcesAtAll (scope : SourceScope) (tree : FileTree) :
    List String → Except ScopeError (List Place)
  | [] => .ok []
  | path :: paths => do
    return (← scope.sourcesAt tree path) ++ (← scope.sourcesAtAll tree paths)

/-- **The C sources that paths lead to**, sorted and once each. -/
def sources (scope : SourceScope) (tree : FileTree) (paths : List String) :
    Except ScopeError (List Place) := do
  return ((← scope.sourcesAtAll tree paths).mergeSort Place.le).eraseReps

end SourceScope

end ProbeWeaver
