import StepGraph.Graph.NodeId

/-!
# Graphs as an editor saves them

A graph is a list of nodes and a list of links, with whatever else the editor keeps beside them.  A
node names the type of its step, may declare some of the step's inputs as slots, which links address
by their place in the list, and may list values for the inputs that are left.
-/

namespace StepGraph

namespace Graph

/-- A slot: the name of an input that is fed by links. -/
structure Slot where
  name : String
  extra : OrderedMap String Json
deriving DecidableEq

/-- A node of a saved graph. -/
structure Node where
  type : String
  id : Option NodeId
  /-- Nodes of lower order come first where nothing else decides; none counts as zero. -/
  order : Option Int64
  slots : List Slot
  /-- Values for the inputs that are no slots, by position. -/
  values : List Json
  extra : OrderedMap String Json
deriving DecidableEq

/-- A link from an output of one node to a slot of another. -/
structure Link where
  id : Option Json
  fromNode : NodeId
  fromSlot : UInt64
  toNode : NodeId
  toSlot : UInt64
  typeTag : Json
deriving DecidableEq

/-- The id a node goes by: its own, or its position in the list. -/
def Node.idAt (index : Nat) (n : Node) : NodeId := n.id.getD (NodeId.ofPosition index)

end Graph

/-- A graph as an editor saves it. -/
structure Graph where
  nodes : List Graph.Node
  links : List Graph.Link
  extra : OrderedMap String Json
deriving DecidableEq

namespace Graph

def empty : Graph := ⟨[], [], .empty⟩

/-- The ids that the nodes of a list go by when the first of them is at position `start`. -/
def idsFrom : Nat → List Node → List NodeId
  | _, [] => []
  | start, n :: ns => n.idAt start :: idsFrom (start + 1) ns

@[simp] theorem idsFrom_nil (start : Nat) : idsFrom start [] = [] := rfl

@[simp] theorem idsFrom_cons (start : Nat) (n : Node) (ns : List Node) :
    idsFrom start (n :: ns) = n.idAt start :: idsFrom (start + 1) ns := rfl

/-- The ids the nodes go by, in list order. -/
def nodeIds (g : Graph) : List NodeId := idsFrom 0 g.nodes

end Graph

end StepGraph
