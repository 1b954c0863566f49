/-!
# Schedules

A schedule is an order of positions in which every position comes after those it depends on.  It is
built in rounds: each round takes the first position that is not placed yet and whose dependencies
all are.  If a round finds none, the positions that are left wait for each other.
-/

namespace StepGraph.Plan

/-- The positions a position depends on; none where the list is too short to say. -/
def dependenciesOf (dependencies : List (List Nat)) (i : Nat) : List Nat := dependencies.getD i []

/-- Can the position be placed after those of `order`? -/
def isReady (dependencies : List (List Nat)) (order : List Nat) (i : Nat) : Bool :=
  !order.contains i && (dependenciesOf dependencies i).all fun d => order.contains d

/-- The first of `count` positions that can be placed. -/
def nextReady? (count : Nat) (dependencies : List (List Nat)) (order : List Nat) : Option Nat :=
  (List.range count).find? (isReady dependencies order)

/-- The positions that are not placed. -/
def unplaced (count : Nat) (order : List Nat) : List Nat :=
  (List.range count).filter fun i => !order.contains i

/-- Goes on with `rounds` rounds after `order`; fails with the positions that are left. -/
def scheduleFrom (count : Nat) (dependencies : List (List Nat)) :
    Nat → List Nat → Except (List Nat) (List Nat)
  | 0, order => .ok order
  | rounds + 1, order =>
    match nextReady? count dependencies order with
    | some i => scheduleFrom count dependencies rounds (order ++ [i])
    | none => .error (unplaced count order)

/-- Orders `count` positions; fails with those that cannot be placed. -/
def schedule (count : Nat) (dependencies : List (List Nat)) : Except (List Nat) (List Nat) :=
  scheduleFrom count dependencies count []

end StepGraph.Plan
