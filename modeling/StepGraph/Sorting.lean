/-!
# Sorting by a key

A stable sort by insertion, and texts in the order of their code points.
-/

namespace StepGraph

universe u v

section

variable {α : Type u} {κ : Type v} [LE κ] [DecidableLE κ]

/-- Puts `a` in front of the first element whose key is not lower. -/
def insertBy (key : α → κ) (a : α) : List α → List α
  | [] => [a]
  | b :: bs => if key a ≤ key b then a :: b :: bs else b :: insertBy key a bs

/-- The elements in the order of their keys; elements of the same key stay as they are. -/
def sortBy (key : α → κ) : List α → List α
  | [] => []
  | a :: as => insertBy key a (sortBy key as)

end

namespace Text

/-- The elements in the order of their texts. -/
def sortByText {α : Type u} (text : α → String) (as : List α) : List α := sortBy text as

def sort (texts : List String) : List String := sortByText id texts

end Text

end StepGraph
