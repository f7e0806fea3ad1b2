/-!
# Text/Middle — a point in the middle of a shortest way from one list to another

A way leads over **points** `(x, y)`: `x` elements of the old list and `y` elements of the new one
are behind it.  A step over one element of either list costs one, going along equal elements is
free, and the points with the same `x - y` form a **diagonal**.  Ways that start at both ends and
pay the same price meet in the middle, so each side needs half the rounds only: `middle?`.
-/

namespace ProbeWeaver.Text

/-- How far a way gets on a diagonal: it comes to the diagonal at `start` and follows equal elements
up to `stop`, both counted in elements of the old list. -/
structure Reach where
  diagonal : Int
  start : Nat
  stop : Nat
  deriving DecidableEq, Repr

variable {α : Type} [DecidableEq α]

/-- How many equal elements follow in two arrays, from two places on. -/
def sharedFrom (old new : Array α) (x y : Nat) : Nat :=
  if h : x < old.size ∧ y < new.size then
    if old[x] = new[y] then sharedFrom old new (x + 1) (y + 1) + 1 else 0
  else 0
termination_by old.size - x

namespace Reach

/-- The elements of the new list behind a place of the old one, on a diagonal. -/
def across (diagonal : Int) (x : Nat) : Nat := (x - diagonal).toNat

/-- From a place on a diagonal along the equal elements there. -/
def along (old new : Array α) (diagonal : Int) (start : Nat) : Reach :=
  ⟨diagonal, start, start + sharedFrom old new start (across diagonal start)⟩

/-- The diagonals below `upper`: each is reached from the neighbour that is further, and by a step
over an old element when both are as far. -/
def below (old new : Array α) (upper : Reach) : List Reach → List Reach
  | [] => [along old new (upper.diagonal - 1) upper.stop]
  | lower :: rest =>
    let start := if lower.stop < upper.stop then upper.stop else lower.stop + 1
    along old new (upper.diagonal - 1) start :: below old new lower rest

/-- **The next round**: how far ways get for one step more, the highest diagonal first.  The first
round stays on the diagonal of the start. -/
def next (old new : Array α) : List Reach → List Reach
  | [] => [along old new 0 0]
  | upper :: rest =>
    along old new (upper.diagonal + 1) (upper.stop + 1) :: below old new upper rest

/-- The first of the reaches that meets one of `others`, which come from the other end: both are on
the same diagonal, and together they cover the old list.  The diagonals of `reaches` fall, those of
`others` rise; `size` and `shift` are the size of the old list and how much it is longer. -/
def meeting? (size : Nat) (shift : Int) : (reaches others : List Reach) → Option Reach
  | [], _ => none
  | _, [] => none
  | reach :: reaches, other :: others =>
    let diagonal := reach.diagonal + other.diagonal
    if diagonal = shift then
      if size ≤ reach.stop + other.stop then some reach else meeting? size shift reaches others
    else if shift < diagonal then meeting? size shift reaches (other :: others)
    else meeting? size shift (reach :: reaches) others
termination_by reaches others => reaches.length + others.length

end Reach

/-- The rounds from both ends, `forward` and `backward` being the last ones.  Ways from the start
meet at the place where they come to the diagonal, ways from the end at the place where they
stop. -/
def meetingPoint? (old new oldBack newBack : Array α) :
    (rounds : Nat) → (forward backward : List Reach) → Option (Nat × Nat)
  | 0, _, _ => none
  | rounds + 1, forward, backward =>
    let shift : Int := old.size - new.size
    let forward := Reach.next old new forward
    match Reach.meeting? old.size shift forward backward.reverse with
    | some reach => some (reach.start, Reach.across reach.diagonal reach.start)
    | none =>
      let backward := Reach.next oldBack newBack backward
      match Reach.meeting? old.size shift backward forward.reverse with
      | some reach =>
        some (old.size - reach.stop, new.size - Reach.across reach.diagonal reach.stop)
      | none => meetingPoint? old new oldBack newBack rounds forward backward

/-- **A point in the middle of a shortest way.**  A way costs at most the elements of both lists,
and the two ends share the price. -/
def middle? (old new : List α) : Option (Nat × Nat) :=
  meetingPoint? old.toArray new.toArray old.reverse.toArray new.reverse.toArray
    ((old.length + new.length + 1) / 2 + 1) [] []

end ProbeWeaver.Text
