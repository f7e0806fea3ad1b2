/-!
# Query/Cache — compiled queries kept by their text

The cache answers as compiling afresh would (`lookup`).  It holds at most `capacity` entries: a
text that is not there is compiled after a full cache has been emptied, and kept only if it
compiles.
-/

namespace ProbeWeaver

/-- **Compiled values by text**, the latest first. -/
structure QueryCache (α : Type) where
  entries : List (String × α) := []

namespace QueryCache

variable {α ε : Type}

/-- The most entries that are kept. -/
def capacity : Nat := 256

/-- Number of entries. -/
def size (cache : QueryCache α) : Nat := cache.entries.length

/-- The cache without entries. -/
def empty : QueryCache α := {}

/-- The cache with room for one more entry. -/
def withRoom (cache : QueryCache α) : QueryCache α :=
  if capacity ≤ cache.size then empty else cache

/-- **Looks a text up**, compiling it when it is not there. -/
def lookup (compile : String → Except ε α) (cache : QueryCache α) (text : String) :
    Except ε α × QueryCache α :=
  match cache.entries.lookup text with
  | some value => (.ok value, cache)
  | none =>
    match compile text with
    | .ok value => (.ok value, ⟨(text, value) :: cache.withRoom.entries⟩)
    | .error e => (.error e, cache.withRoom)

end QueryCache

end ProbeWeaver
