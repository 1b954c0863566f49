import StepGraph.Proofs.Saving.Fields

/-!
# The format of saved graphs

`IsGraph` states level by level what a saved graph looks like, and `normal` is the form in which it
is saved again. In the normal form the known fields stand first and in a fixed order and the others
follow as they stood, lists that were missing are there and empty, ids and orders that were `null`
are missing, and ids are numbers where their text is a usual numeral. All else is as it was.
-/

namespace StepGraph.Graph

/-! ## The format -/

def IsText (v : Json) : Prop := ∃ s, v = .string s

def IsObject (v : Json) : Prop := ∃ fields, v = .object fields

def IsList (P : Json → Prop) (v : Json) : Prop := ∃ items, v = .array items ∧ ∀ item ∈ items, P item

def IsId (v : Json) : Prop := (∃ n, v = .number n) ∨ ∃ s, v = .string s

/-- A whole number of 64 bits with a sign. -/
def IsOrder (v : Json) : Prop := ∃ i : Int64, v = Json.ofInt i.toInt

/-- A whole number of 64 bits without a sign. -/
def IsIndex (v : Json) : Prop := ∃ i : UInt64, v = Json.ofInt i.toNat

structure IsSlot (v : Json) : Prop where
  object : IsObject v
  name : ∃ name ∈ v.field? "name", IsText name

structure IsNode (v : Json) : Prop where
  object : IsObject v
  type : ∃ type ∈ v.field? "type", IsText type
  id : ∀ id ∈ v.field? "id", id = .null ∨ IsId id
  order : ∀ order ∈ v.field? "order", order = .null ∨ IsOrder order
  inputs : ∀ inputs ∈ v.field? "inputs", IsList IsSlot inputs
  values : ∀ values ∈ v.field? "widgets_values", IsList (fun _ => True) values

/-- Five entries, or six with the link's own id, which may be anything, in front. -/
inductive IsLink : Json → Prop
  | five {a b c d : Json} (ha : IsId a) (hb : IsIndex b) (hc : IsId c) (hd : IsIndex d) (e : Json) :
    IsLink (.array [a, b, c, d, e])
  | six (id : Json) {a b c d : Json} (ha : IsId a) (hb : IsIndex b) (hc : IsId c) (hd : IsIndex d)
    (e : Json) : IsLink (.array [id, a, b, c, d, e])

/-- What a saved graph looks like. -/
structure IsGraph (v : Json) : Prop where
  object : IsObject v
  nodes : ∀ nodes ∈ v.field? "nodes", IsList IsNode nodes
  links : ∀ links ∈ v.field? "links", IsList IsLink links

/-! ## The normal form -/

/-- A text that is the usual numeral of a 64-bit number becomes this number. -/
def normalText (text : String) : Json :=
  match Decimal.numeral64? text with
  | some n => Json.ofInt n.toInt
  | none => .string text

theorem normalText_toString (n : Int64) : normalText (toString n.toInt) = Json.ofInt n.toInt := by
  rw [normalText, Decimal.numeral64?_eq_some_iff.2 rfl]

theorem normalText_of_ne {text : String} (h : ∀ n : Int64, text ≠ toString n.toInt) :
    normalText text = .string text := by
  rw [normalText]
  cases hn : Decimal.numeral64? text with
  | none => rfl
  | some n => exact absurd (Decimal.numeral64?_eq_some_iff.1 hn) (h n)

def normalId : Json → Json
  | .number n => normalText n.text
  | .string s => normalText s
  | v => v

def normalItems (normal : Json → Json) : Json → Json
  | .array items => .array (items.map normal)
  | v => v

theorem normalItems_id : normalItems id = id := by
  funext v
  cases v <;> simp [normalItems]

/-- A field that is `null` counts as missing. -/
def unlessNull : Option Json → Option Json
  | some .null => none
  | v? => v?

def normalSlot : Json → Json
  | .object fs => .object (optionalField "name" (Entries.find? "name" fs) ++ others Slot.known fs)
  | v => v

def normalNode : Json → Json
  | .object fs => .object (
      optionalField "type" (Entries.find? "type" fs) ++
      optionalField "id" (unlessNull ((Entries.find? "id" fs).map normalId)) ++
      optionalField "order" (unlessNull (Entries.find? "order" fs)) ++
      [("inputs", ((Entries.find? "inputs" fs).map (normalItems normalSlot)).getD (.array [])),
        ("widgets_values", (Entries.find? "widgets_values" fs).getD (.array []))] ++
      others Node.known fs)
  | v => v

def normalLink : Json → Json
  | .array [a, b, c, d, e] => .array [normalId a, b, normalId c, d, e]
  | .array [id, a, b, c, d, e] => .array [id, normalId a, b, normalId c, d, e]
  | v => v

/-- The saved form of a graph after it was read. -/
def normal : Json → Json
  | .object fs => .object (
      ("nodes", ((Entries.find? "nodes" fs).map (normalItems normalNode)).getD (.array [])) ::
      ("links", ((Entries.find? "links" fs).map (normalItems normalLink)).getD (.array [])) ::
      others known fs)
  | v => v

end StepGraph.Graph
