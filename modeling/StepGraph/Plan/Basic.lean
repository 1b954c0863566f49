import StepGraph.Plan.Schedule
import StepGraph.Plan.Surface
import StepGraph.Plan.Wiring

/-!
# Compiled graphs

`compile` turns a saved graph into a `Plan`: the steps in the order they run, each with the
registers it reads from and writes to, and the surface of the graph.
-/

namespace StepGraph

namespace Plan

/-- A step of a compiled graph: where its arguments come from and where its values go. -/
structure Stage where
  node : NodeId
  type : String
  step : Step
  inputMap : OrderedMap String Register
  outputs : List (List Register)

/-- What running a node needs to know of it. -/
def Stage.ofNode (n : Node) : Stage :=
  ⟨n.id, n.type, n.step, n.inputMap, n.outputs.map Output.consumers⟩

/-- The order of the nodes of a graph; a failure names the nodes that wait for each other. -/
def scheduleNodes (nodes : List Node) (dependencies : List (List Nat)) :
    Except CompileError (List Nat) :=
  (schedule nodes.length dependencies).mapError fun left =>
    .dependencyCycle (left.filterMap fun i => nodes[i]?.map Node.id)

end Plan

/-- A compiled graph. -/
structure Plan where
  stages : List Plan.Stage
  inputs : InputMap
  outputs : List ExportedOutput
  /-- Does any step show something even if nothing reads its outputs? -/
  isOutputNode : Bool

namespace Plan

/-- Compiles a graph.  Registers are taken from `start` on. -/
def compileFrom (start : Register) (catalog : Catalog) (g : Graph) (options : ExportOptions) :
    Except CompileError Plan := do
  let created ← createNodes catalog start g.nodes
  let (nodes, wiring) ← connectLinks g.links created.nodes
  let (nodes, exports) := exportOutputs options created.next nodes
  let inputs := exportInputs wiring.linked created.hidden nodes
  let order ← scheduleNodes nodes wiring.dependencies
  return {
    stages := order.filterMap fun i => nodes[i]?.map Stage.ofNode
    inputs
    outputs := exports.outputs
    isOutputNode := nodes.any fun n => n.step.isOutputNode }

def compile (catalog : Catalog) (g : Graph) (options : ExportOptions) : Except CompileError Plan :=
  compileFrom Register.first catalog g options

/-- The plan with inputs merged, and the warnings. -/
def mergeInputs (p : Plan) (mapping : OrderedMap String (List String)) :
    Plan × List Surface.Warning :=
  let (inputs, warnings) := Surface.merge p.inputs mapping
  ({ p with inputs }, warnings)

/-- The plan with inputs renamed, and the warnings. -/
def renameInputs (p : Plan) (mapping : OrderedMap String String) : Plan × List Surface.Warning :=
  let (inputs, warnings) := Surface.rename p.inputs mapping
  ({ p with inputs }, warnings)

end Plan

end StepGraph
