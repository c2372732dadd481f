/-!
# Stable sorting

Sorting by insertion, for an order given as a test of what must come before what. Members that
neither must precede the other stay in their order.
-/

namespace Loadout

variable {α : Type}

/-- Puts a member in front of the first one that need not come before it. -/
def insertBy (before : α → α → Bool) (a : α) : List α → List α
  | [] => [a]
  | b :: rest => if before b a then b :: insertBy before a rest else a :: b :: rest

/-- The members of a list in order. -/
def sortBy (before : α → α → Bool) (l : List α) : List α := l.foldr (insertBy before) []

theorem insertBy_perm (before : α → α → Bool) (a : α) (l : List α) :
    (insertBy before a l).Perm (a :: l) := by
  induction l with
  | nil => exact .refl _
  | cons b rest ih =>
    rw [insertBy]
    split
    · exact (ih.cons b).trans (.swap a b rest)
    · exact .refl _

/-- Sorting keeps the members. -/
theorem sortBy_perm (before : α → α → Bool) (l : List α) : (sortBy before l).Perm l := by
  induction l with
  | nil => exact .refl _
  | cons a rest ih => exact (insertBy_perm before a _).trans (ih.cons a)

end Loadout
