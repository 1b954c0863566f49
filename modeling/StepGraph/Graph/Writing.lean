import StepGraph.Graph.Basic

/-!
# Writing graphs

The JSON form of a graph.  The fields the library knows come first, in a fixed order, and the others
follow in their own order.  A missing id or order is left out; empty lists are written.
-/

namespace StepGraph.Graph

/-- The field with an optional value; nothing if there is none. -/
def optionalField (key : String) : Option Json → List (String × Json)
  | some v => [(key, v)]
  | none => []

def Slot.json (s : Slot) : Json :=
  .object (("name", .string s.name) :: s.extra.entries)

def Node.json (n : Node) : Json :=
  .object (("type", .string n.type) :: optionalField "id" (n.id.map NodeId.json) ++
    optionalField "order" (n.order.map fun i => Json.ofInt i.toInt) ++
    [("inputs", .array (n.slots.map Slot.json)), ("widgets_values", .array n.values)] ++
    n.extra.entries)

/-- The JSON form of a link: five entries, or six with the link's own id in front. -/
def Link.json (l : Link) : Json :=
  .array (l.id.toList ++
    [l.fromNode.json, Json.ofInt l.fromSlot.toNat, l.toNode.json, Json.ofInt l.toSlot.toNat,
      l.typeTag])

def json (g : Graph) : Json :=
  .object (("nodes", .array (g.nodes.map Node.json)) :: ("links", .array (g.links.map Link.json)) ::
    g.extra.entries)

end StepGraph.Graph
