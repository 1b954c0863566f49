import StepGraph.Graph.Basic

/-!
# Building graphs by hand

Functions that add a node or a link to a graph, for graphs that no editor saved.
-/

namespace StepGraph.Graph

def Node.make (id type : String) : Node :=
  { type, id := some ⟨id⟩, order := none, slots := [], values := [], extra := .empty }

def Node.withSlot (n : Node) (name : String) : Node :=
  { n with slots := n.slots ++ [⟨name, .empty⟩] }

def Node.withValue (n : Node) (value : Json) : Node := { n with values := n.values ++ [value] }

def Node.withOrder (n : Node) (order : Int64) : Node := { n with order := some order }

/-- The node without an id of its own. -/
def Node.anonymous (n : Node) : Node := { n with id := none }

def withNode (g : Graph) (n : Node) : Graph := { g with nodes := g.nodes ++ [n] }

/-- The graph with one more link.  Links are numbered from one. -/
def withLink (g : Graph) (fromNode : String) (fromSlot : UInt64) (toNode : String) (toSlot : UInt64)
    (typeTag : String) : Graph :=
  let link : Link := {
    id := some (Json.ofInt (g.links.length + 1)), fromNode := ⟨fromNode⟩, fromSlot,
    toNode := ⟨toNode⟩, toSlot, typeTag := .string typeTag }
  { g with links := g.links ++ [link] }

end StepGraph.Graph
