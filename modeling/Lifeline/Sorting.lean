/-!
# Sorting

A stable sort by insertion (`sortBy`). It recurs on the list itself, so that it computes wherever a
list is given.
-/

namespace Lifeline

/-- The sorted list with `x` in front of the first item that `x` may stand before. -/
def insertBy {α : Type} (le : α → α → Bool) (x : α) : List α → List α
  | [] => [x]
  | y :: ys => if le x y then x :: y :: ys else y :: insertBy le x ys

/-- The items in the order of `le`. Items that may stand in either order keep theirs. -/
def sortBy {α : Type} (le : α → α → Bool) : List α → List α
  | [] => []
  | x :: xs => insertBy le x (sortBy le xs)

end Lifeline
