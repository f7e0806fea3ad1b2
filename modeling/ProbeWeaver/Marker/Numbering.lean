import ProbeWeaver.Marker.Category

/-!
# Marker/Numbering — numbers handed out per category

`Numbering.next` hands out the current count of a category and raises it by one, so the numbers of a
category are `0, 1, …` without a gap.  A value of `Numbering` is also its own snapshot.

* `count_next` — drawing a number raises the count of its own category and no other.
-/

namespace ProbeWeaver

/-- **How many numbers each category has handed out.** -/
structure Numbering where
  values : Vector Nat 17 := Vector.replicate 17 0
  deriving DecidableEq, Repr

namespace Numbering

/-- Numbers handed out for a category so far. -/
def count (numbering : Numbering) (c : Category) : Nat := numbering.values[c.index]

/-- **Draws the next number** of a category. -/
def next (numbering : Numbering) (c : Category) : Nat × Numbering :=
  (numbering.count c, ⟨numbering.values.set c.index (numbering.count c + 1)⟩)

theorem count_next (numbering : Numbering) (c d : Category) :
    (numbering.next c).2.count d = if d = c then numbering.count c + 1 else numbering.count d := by
  by_cases h : d = c
  · subst h; simp [next, count]
  · have : c.index.val ≠ d.index.val := fun e => h (Category.index_injective (Fin.ext e)).symm
    simp [next, count, h, Vector.getElem_set_ne, this]

/-- The categories that have handed out a number, with their counts, in report order. -/
def toList (numbering : Numbering) : List (Category × Nat) :=
  (Category.all.map fun c => (c, numbering.count c)).filter (·.2 != 0)

end Numbering

end ProbeWeaver
