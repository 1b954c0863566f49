import StepGraph.Json.Writer

/-!
# Node ids

A node is known by a text.  Editors save whole numbers, hand-written graphs also use words; both are
kept as their text, and a text that is the usual numeral of a 64-bit number is saved as a number
again.
-/

namespace StepGraph

/-- The id of a node: any text. -/
structure NodeId where
  text : String
deriving DecidableEq, Repr

namespace NodeId

/-- The id of a node that has none of its own: its position in the list. -/
def ofPosition (index : Nat) : NodeId := ⟨toString index⟩

/-- The 64-bit number the text is a numeral of; leading zeros and a sign may be there. -/
def int64? (id : NodeId) : Option Int64 := Decimal.int64? id.text.toList

/-- The saved form: a number if the text is its usual numeral, else the text. -/
def json (id : NodeId) : Json :=
  match id.int64? with
  | some n => if toString n.toInt = id.text then Json.ofInt n.toInt else .string id.text
  | none => .string id.text

/-- Reads an id from a number or a text. -/
def ofJson? : Json → Option NodeId
  | .number n => some ⟨n.text⟩
  | .string s => some ⟨s⟩
  | _ => none

end NodeId

end StepGraph
