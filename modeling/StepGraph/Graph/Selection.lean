import StepGraph.Graph.Basic

/-!
# Parts of a graph

`Graph.select` keeps some nodes and the links that run between them.  The kept nodes get their ids
written down, since positions shift.  Slots that were fed from outside stay declared.
-/

namespace StepGraph.Graph

/-- The nodes of a list whose ids are wanted, with these ids written down; the first node of the
list is at position `start`. -/
def selectNodes (ids : List NodeId) : Nat → List Node → List Node
  | _, [] => []
  | start, n :: ns =>
    let id := n.idAt start
    if id ∈ ids then { n with id := some id } :: selectNodes ids (start + 1) ns
    else selectNodes ids (start + 1) ns

/-- The links both of whose ends are wanted. -/
def selectLinks (ids : List NodeId) (links : List Link) : List Link :=
  links.filter fun l => l.fromNode ∈ ids && l.toNode ∈ ids

/-- The largest number among the ids of the nodes. -/
def lastNodeId? (nodes : List Node) : Option Int :=
  (nodes.filterMap fun n => n.id.bind fun id => id.int64?.map Int64.toInt).max?

/-- The 64-bit number that is the id of a link. -/
def Link.number? (l : Link) : Option Int :=
  match l.id with
  | some (.number n) => n.int64?.map Int64.toInt
  | _ => none

/-- The largest number among the ids of the links; zero if there is none. -/
def lastLinkId (links : List Link) : Int := (links.filterMap Link.number?).max?.getD 0

/-- The part of the graph made of the nodes with the given ids and the links between them. -/
def select (g : Graph) (ids : List NodeId) : Graph :=
  let nodes := selectNodes ids 0 g.nodes
  let links := selectLinks (nodes.filterMap Node.id) g.links
  let extra : OrderedMap String Json := match lastNodeId? nodes with
    | some n => OrderedMap.empty.insert "last_node_id" (Json.ofInt n)
    | none => .empty
  { nodes, links, extra := extra.insert "last_link_id" (Json.ofInt (lastLinkId links)) }

end StepGraph.Graph
