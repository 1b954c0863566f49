/-!
# Nodes

The tree of a document before its scalars and aliases are given their meaning.  A node may have a
name and a tag; an alias names a node that has started before it.  The type `ν` of names is `String`
in a tree as it is written and `Nat` in one whose names have been numbered (`Node.number`).
-/

namespace StepGraph.Yaml

/-- The tree of a document. -/
inductive Node (ν : Type)
  | alias (name : ν)
  /-- A text; `bare` says that it has neither quotes nor a block header. -/
  | scalar (name : Option ν) (tag : Option String) (bare : Bool) (text : String)
  | sequence (name : Option ν) (tag : Option String) (items : List (Node ν))
  | mapping (name : Option ν) (tag : Option String) (pairs : List (Node ν × Node ν))

namespace Node

variable {ν : Type}

/-- The node that stands where nothing is written. -/
def empty : Node ν := .scalar none none true ""

/-! ## Numbering names

A name gets the number of names known before it.  A name that is given again gets a new number, but
does not add to the names known, so that a number can come twice: an alias stands for the last node
that has its number.
-/

/-- The numbers of the names known so far, last given first. -/
abbrev Names := List (String × Nat)

/-- Numbers the name of a node. -/
def Names.give (names : Names) : Option String → Option Nat × Names
  | none => (none, names)
  | some name =>
    (some names.length, (name, names.length) :: names.filter fun e => e.1 != name)

mutual

/-- Numbers the names in a tree, in the order in which the nodes start. -/
def number (names : Names) : Node String → Option (Node Nat × Names)
  | .alias name => (names.lookup name).map fun n => (.alias n, names)
  | .scalar name tag bare text =>
    let (id, names) := names.give name
    some (.scalar id tag bare text, names)
  | .sequence name tag items =>
    let (id, names) := names.give name
    match numberItems names items with
    | some (items, names) => some (.sequence id tag items, names)
    | none => none
  | .mapping name tag pairs =>
    let (id, names) := names.give name
    match numberPairs names pairs with
    | some (pairs, names) => some (.mapping id tag pairs, names)
    | none => none

def numberItems (names : Names) : List (Node String) → Option (List (Node Nat) × Names)
  | [] => some ([], names)
  | n :: ns =>
    match number names n with
    | some (n, names) => (numberItems names ns).map fun (ns, names) => (n :: ns, names)
    | none => none

def numberPairs (names : Names) :
    List (Node String × Node String) → Option (List (Node Nat × Node Nat) × Names)
  | [] => some ([], names)
  | (k, v) :: ps =>
    match number names k with
    | none => none
    | some (k, names) =>
      match number names v with
      | none => none
      | some (v, names) => (numberPairs names ps).map fun (ps, names) => ((k, v) :: ps, names)

end

/-- The entry of a node in a list of named nodes. -/
def entry (n : Node ν) : Option ν → List (ν × Node ν)
  | some id => [(id, n)]
  | none => []

mutual

/-- The named nodes in a tree, in the order in which they start. -/
def named : Node ν → List (ν × Node ν)
  | .alias _ => []
  | .scalar id tag bare text => (Node.scalar id tag bare text).entry id
  | .sequence id tag items => (Node.sequence id tag items).entry id ++ namedItems items
  | .mapping id tag pairs => (Node.mapping id tag pairs).entry id ++ namedPairs pairs

def namedItems : List (Node ν) → List (ν × Node ν)
  | [] => []
  | n :: ns => named n ++ namedItems ns

def namedPairs : List (Node ν × Node ν) → List (ν × Node ν)
  | [] => []
  | (k, v) :: ps => named k ++ named v ++ namedPairs ps

end

mutual

/-- The size of a tree: a collection counts for its start and its end. -/
def size : Node ν → Nat
  | .alias _ => 1
  | .scalar .. => 1
  | .sequence _ _ items => sizeItems items + 2
  | .mapping _ _ pairs => sizePairs pairs + 2

def sizeItems : List (Node ν) → Nat
  | [] => 0
  | n :: ns => size n + sizeItems ns

def sizePairs : List (Node ν × Node ν) → Nat
  | [] => 0
  | (k, v) :: ps => size k + size v + sizePairs ps

end

end Node

end StepGraph.Yaml
