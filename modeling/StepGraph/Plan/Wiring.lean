import StepGraph.Plan.Node

/-!
# Wiring

A link hands the register of a slot to an output, which from then on writes to it, and makes the
node of the slot depend on the node of the output.  Links are wired in their order; the first one
that does not fit ends the wiring.
-/

namespace StepGraph

/-- The output with one more register to write to. -/
def Output.addConsumer (o : Output) (r : Register) : Output :=
  { o with consumers := o.consumers ++ [r] }

namespace Plan

/-- Puts a number into an ascending list that has each number once. -/
def insertAscending (n : Nat) : List Nat → List Nat
  | [] => [n]
  | m :: ms => if n < m then n :: m :: ms else if n = m then m :: ms else m :: insertAscending n ms

/-- What the links of a graph say. -/
structure Wiring where
  /-- The registers of the slots that links feed, in the order of the first link, each once. -/
  linked : List Register
  /-- For each node position, the positions of the nodes it reads from, ascending. -/
  dependencies : List (List Nat)
deriving DecidableEq

def Wiring.empty (count : Nat) : Wiring := ⟨[], List.replicate count []⟩

def position? (nodes : List Node) (id : NodeId) : Except CompileError Nat :=
  match nodes.findIdx? fun n => n.id == id with
  | some i => .ok i
  | none => .error (.unknownNode id)

/-- The node whose output at a place has one more register to write to. -/
def Node.addConsumer (n : Node) (slot : Nat) (r : Register) : Node :=
  { n with outputs := n.outputs.modify slot fun o => o.addConsumer r }

def connectLink (nodes : List Node) (w : Wiring) (l : Graph.Link) :
    Except CompileError (List Node × Wiring) := do
  let source ← position? nodes l.fromNode
  let target ← position? nodes l.toNode
  let input ← match nodes[target]?.bind fun n => n.slots[l.toSlot.toNat]? with
    | some input => pure input
    | none => throw (.unknownSlot l.toNode .input l.toSlot)
  let output ← match nodes[source]?.bind fun n => n.outputs[l.fromSlot.toNat]? with
    | some output => pure output
    | none => throw (.unknownSlot l.fromNode .output l.fromSlot)
  if output.typeTag ≠ input.typeTag then
    throw (.linkTypeMismatch input.name input.typeTag output.typeTag)
  return (nodes.modify source fun n => n.addConsumer l.fromSlot.toNat input.register,
    { linked := if input.register ∈ w.linked then w.linked else w.linked ++ [input.register]
      dependencies := w.dependencies.modify target (insertAscending source) })

def connectFrom : List Node → Wiring → List Graph.Link → Except CompileError (List Node × Wiring)
  | nodes, w, [] => .ok (nodes, w)
  | nodes, w, l :: links => do
    let (nodes, w) ← connectLink nodes w l
    connectFrom nodes w links

/-- Wires the links of a graph into its nodes. -/
def connectLinks (links : List Graph.Link) (nodes : List Node) :
    Except CompileError (List Node × Wiring) :=
  connectFrom nodes (Wiring.empty nodes.length) links

end Plan

end StepGraph
