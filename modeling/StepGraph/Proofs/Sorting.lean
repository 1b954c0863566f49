import Mathlib.Data.List.Sort
import Mathlib.Data.String.Basic
import StepGraph.Sorting

/-!
# Properties of the sort by a key

The sort by a key is the library's insertion sort by the order of the keys. Elements that are related
one for one and have the same keys are sorted alike, so they stay related (`forall₂_sortBy`).

Sorted texts do not depend on the order in which they are given.
-/

namespace StepGraph

section

variable {α β κ : Type*} [LE κ] [DecidableLE κ]

theorem insertBy_eq_orderedInsert (key : α → κ) (a : α) (as : List α) :
    insertBy key a as = as.orderedInsert (fun a b => key a ≤ key b) a := by
  induction as with
  | nil => rfl
  | cons b bs ih => rw [insertBy, List.orderedInsert, ih]

theorem sortBy_eq_insertionSort (key : α → κ) (as : List α) :
    sortBy key as = as.insertionSort fun a b => key a ≤ key b := by
  induction as with
  | nil => rfl
  | cons a as ih => rw [sortBy, ih, insertBy_eq_orderedInsert, List.insertionSort_cons]

theorem sortBy_perm (key : α → κ) (as : List α) : (sortBy key as).Perm as := by
  rw [sortBy_eq_insertionSort]
  exact List.perm_insertionSort _ as

/-- Images are sorted by the keys that the elements have through them. -/
theorem sortBy_map (key : β → κ) (f : α → β) (as : List α) :
    sortBy key (as.map f) = (sortBy (fun a => key (f a)) as).map f := by
  rw [sortBy_eq_insertionSort, sortBy_eq_insertionSort]
  exact (List.map_insertionSort _ _ f as fun a _ b _ => Iff.rfl).symm

section

variable {r : α → β → Prop} {key : α → κ} {key' : β → κ} (hr : ∀ a b, r a b → key a = key' b)

include hr

theorem forall₂_insertBy {a : α} {b : β} {as : List α} {bs : List β} (hab : r a b)
    (h : List.Forall₂ r as bs) : List.Forall₂ r (insertBy key a as) (insertBy key' b bs) := by
  induction h with
  | nil => exact List.Forall₂.cons hab List.Forall₂.nil
  | @cons c d cs ds hcd hrest ih =>
      rw [insertBy, insertBy, hr a b hab, hr c d hcd]
      split
      · exact List.Forall₂.cons hab (List.Forall₂.cons hcd hrest)
      · exact List.Forall₂.cons hcd ih

/-- Elements of the same keys are sorted alike. -/
theorem forall₂_sortBy {as : List α} {bs : List β} (h : List.Forall₂ r as bs) :
    List.Forall₂ r (sortBy key as) (sortBy key' bs) := by
  induction h with
  | nil => exact List.Forall₂.nil
  | cons hab _ ih => exact forall₂_insertBy hr hab ih

end

end

namespace Text

theorem sort_eq_insertionSort (texts : List String) :
    sort texts = texts.insertionSort (· ≤ ·) :=
  sortBy_eq_insertionSort id texts

/-- The order of texts does not matter once they are sorted. -/
theorem sort_eq_of_perm {texts texts' : List String} (h : texts.Perm texts') :
    sort texts = sort texts' := by
  rw [sort_eq_insertionSort, sort_eq_insertionSort]
  refine List.Perm.eq_of_pairwise (fun a b _ _ => le_antisymm)
    (List.pairwise_insertionSort (· ≤ ·) texts) (List.pairwise_insertionSort (· ≤ ·) texts') ?_
  exact ((List.perm_insertionSort _ texts).trans h).trans (List.perm_insertionSort _ texts').symm

end Text

end StepGraph
