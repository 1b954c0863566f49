import StepGraph.Json.Draft
import StepGraph.Graph.Basic

/-!
# Reading graphs

A graph is read from a JSON text in one pass, so the first fault in the order of the text is the one
reported, be it a fault of the text or of what it says.  The fields the library knows may not be
repeated; of other fields the last value counts, at the place of the first.  `nodes`, `links`,
`inputs` and `widgets_values` may be missing, `id` and `order` may be missing or `null`.
-/

namespace StepGraph.Graph

open Json (Draft)

/-- Why a graph cannot be read. -/
inductive Fault
  /-- The text is no JSON, or a part of it has the wrong shape. -/
  | malformed
  | linkLength (count : Nat)
  | linkNode (value : Json)
  | linkSlot (value : Json)
  | nodeId (value : Json)
deriving DecidableEq

def Fault.detail? : Fault → Option String
  | .malformed => none
  | .linkLength n => some s!"link must have 5 or 6 entries, got {n}"
  | .linkNode v => some s!"invalid node id in link: {v.compact}"
  | .linkSlot v => some s!"invalid slot index in link: {v.compact}"
  | .nodeId v => some s!"node id must be a number or string, got {v.compact}"

abbrev Read := Except Fault

/-- The value of a draft, if nothing in it is cut. -/
def readValue (d : Draft) : Read Json :=
  match d.value? with
  | some v => .ok v
  | none => .error .malformed

def readText : Draft → Read String
  | .string s => .ok s
  | _ => .error .malformed

/-- Reads items one after the other. -/
def readEach {α : Type} (read : Draft → Read α) : List Draft → Read (List α)
  | [] => .ok []
  | d :: ds => do
    let a ← read d
    let as ← readEach read ds
    return a :: as

def readList {α : Type} (read : Draft → Read α) : Draft → Read (List α)
  | .array items closed => do
    let as ← readEach read items
    if closed then return as else .error .malformed
  | _ => .error .malformed

/-- Reads the fields of an object into a record that grows. -/
def readFields {α : Type} (read : α → String → Draft → Read α) :
    α → List (String × Draft) → Read α
  | a, [] => .ok a
  | a, (key, d) :: fields => do
    let a ← read a key d
    readFields read a fields

/-- Reads an object into a record that grows from `start`. -/
def readObject {α : Type} (start : α) (read : α → String → Draft → Read α) : Draft → Read α
  | .object fields closed => do
    let a ← readFields read start fields
    if closed then return a else .error .malformed
  | _ => .error .malformed

/-- Fills a field that may be given once. -/
def once {α : Type} (old : Option α) (new : Read α) : Read (Option α) :=
  match old with
  | some _ => .error .malformed
  | none => new.map some

/-- Adds a field the library does not know. -/
def readExtra (extra : OrderedMap String Json) (key : String) (d : Draft) :
    Read (OrderedMap String Json) := do
  let v ← readValue d
  return extra.insert key v

def readId (v : Json) : Read NodeId :=
  match NodeId.ofJson? v with
  | some id => .ok id
  | none => .error (.nodeId v)

/-- Reads an id of a node, which may be `null`. -/
def readNodeId (d : Draft) : Read (Option NodeId) := do
  match ← readValue d with
  | .null => return none
  | v => (readId v).map some

/-- Reads a whole number that may be `null`. -/
def readOrder : Draft → Read (Option Int64)
  | .null => .ok none
  | .number n =>
    match n.int64? with
    | some i => .ok (some i)
    | none => .error .malformed
  | _ => .error .malformed

def readLinkNode (v : Json) : Read NodeId :=
  match NodeId.ofJson? v with
  | some id => .ok id
  | none => .error (.linkNode v)

def readLinkSlot (v : Json) : Read UInt64 :=
  match v with
  | .number n =>
    match n.uint64? with
    | some i => .ok i
    | none => .error (.linkSlot v)
  | v => .error (.linkSlot v)

/-- Reads the five entries of a link after its id. -/
def readLinkEntries (id : Option Json) (a b c d e : Json) : Read Link := do
  let fromNode ← readLinkNode a
  let fromSlot ← readLinkSlot b
  let toNode ← readLinkNode c
  let toSlot ← readLinkSlot d
  return { id, fromNode, fromSlot, toNode, toSlot, typeTag := e }

/-- Reads a link from its entries. -/
def readLinkParts : List Json → Read Link
  | [a, b, c, d, e] => readLinkEntries none a b c d e
  | [id, a, b, c, d, e] => readLinkEntries (some id) a b c d e
  | entries => .error (.linkLength entries.length)

def readLink (d : Draft) : Read Link := do
  let entries ← readList readValue d
  readLinkParts entries

structure SlotFields where
  name : Option String
  extra : OrderedMap String Json

def readSlotField (s : SlotFields) (key : String) (d : Draft) : Read SlotFields :=
  if key = "name" then return { s with name := ← once s.name (readText d) }
  else return { s with extra := ← readExtra s.extra key d }

def readSlot (d : Draft) : Read Slot := do
  let s ← readObject ⟨none, .empty⟩ readSlotField d
  match s.name with
  | some name => return { name, extra := s.extra }
  | none => .error .malformed

structure NodeFields where
  type : Option String
  id : Option (Option NodeId)
  order : Option (Option Int64)
  slots : Option (List Slot)
  values : Option (List Json)
  extra : OrderedMap String Json

def readNodeField (n : NodeFields) (key : String) (d : Draft) : Read NodeFields :=
  if key = "type" then return { n with type := ← once n.type (readText d) }
  else if key = "id" then return { n with id := ← once n.id (readNodeId d) }
  else if key = "order" then return { n with order := ← once n.order (readOrder d) }
  else if key = "inputs" then return { n with slots := ← once n.slots (readList readSlot d) }
  else if key = "widgets_values" then
    return { n with values := ← once n.values (readList readValue d) }
  else return { n with extra := ← readExtra n.extra key d }

def readNode (d : Draft) : Read Node := do
  let n ← readObject ⟨none, none, none, none, none, .empty⟩ readNodeField d
  match n.type with
  | some type =>
    return {
      type, id := n.id.getD none, order := n.order.getD none, slots := n.slots.getD [],
      values := n.values.getD [], extra := n.extra }
  | none => .error .malformed

structure GraphFields where
  nodes : Option (List Node)
  links : Option (List Link)
  extra : OrderedMap String Json

def readGraphField (g : GraphFields) (key : String) (d : Draft) : Read GraphFields :=
  if key = "nodes" then return { g with nodes := ← once g.nodes (readList readNode d) }
  else if key = "links" then return { g with links := ← once g.links (readList readLink d) }
  else return { g with extra := ← readExtra g.extra key d }

/-- Reads a graph from what a text says. -/
def ofDraft (d : Draft) : Read Graph := do
  let g ← readObject ⟨none, none, .empty⟩ readGraphField d
  return { nodes := g.nodes.getD [], links := g.links.getD [], extra := g.extra }

def ofJson (v : Json) : Read Graph := ofDraft v.draft

end StepGraph.Graph
