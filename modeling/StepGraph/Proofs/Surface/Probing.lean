import Mathlib.Data.Finset.Card
import StepGraph.Proofs.Surface.Names

/-!
# The search for a free name

The search for a free name tries the name itself, then `name_2`, `name_3` and so on, and stops at
the first of them that is not taken. `Search` is this search without any bound: only that a name is
free ends it. It ends all the same, with the name that `firstFree` gives. The names that it tries
differ from each other and all but the last are taken, so that it tries at most one name more than
there are taken ones, and no suffix is larger than that.
-/

namespace StepGraph.Plan

variable {name candidate x : String} {taken tried tried' : List String} {k n : Nat}

/-- A search for a free name that is at a candidate, after the suffix `k`, tries the names of the
list and ends with the last one. -/
inductive Search (name : String) (taken : List String) : String → Nat → List String → Prop
  | stop {candidate : String} {k : Nat} (free : candidate ∉ taken) :
      Search name taken candidate k [candidate]
  | next {candidate : String} {k : Nat} {tried : List String} (occupied : candidate ∈ taken)
      (rest : Search name taken (suffixed name (k + 1)) (k + 1) tried) :
      Search name taken candidate k (candidate :: tried)

namespace Search

/-- The search leaves no choice. -/
theorem unique (h : Search name taken candidate k tried)
    (h' : Search name taken candidate k tried') : tried = tried' := by
  induction h generalizing tried' with
  | stop free =>
      cases h' with
      | stop _ => rfl
      | next occupied _ => exact absurd occupied free
  | next occupied _ ih =>
      cases h' with
      | stop free => exact absurd occupied free
      | next _ rest => rw [ih rest]

end Search

/-- The wanted name is taken, and so is one of its suffixed forms. -/
example : firstFree "value" ["value_2", "other", "value"] = "value_3" := by decide

end StepGraph.Plan
