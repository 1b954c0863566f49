import StepGraph.Graph.Basic
import StepGraph.Plan.Error
import StepGraph.Sorting
import StepGraph.Step.Basic

/-!
# Nodes of a graph that is being compiled

A register is a place for one value while a compiled graph runs.  Registers are numbered; compiling
a graph takes new ones from a counter, so that no two places of one graph share a register.

Every node of a saved graph becomes a step with registers for its inputs.  The inputs a node
declares as slots are set apart from its value inputs, the positional values become defaults of the
value inputs, and the hidden inputs are shared by name among all nodes.

`createNodes` does this for all nodes of a graph and puts them in the order of their order hints.
-/

namespace StepGraph

/-- A place for one value. -/
structure Register where
  index : Nat
deriving DecidableEq, Repr, Inhabited

/-- The first register of a compilation where nothing else is said. -/
def Register.first : Register := ⟨1⟩

def Register.next (r : Register) : Register := ⟨r.index + 1⟩

/-- An input of a node, or of a compiled graph.  A node reads its argument from the one register of
the input; an input of a compiled graph may own further registers, and a value given to it goes to
all of them. -/
structure Input where
  name : String
  group : InputGroup
  spec : InputSpec
  registers : List Register
deriving DecidableEq

namespace Input

/-- The input with its first register. -/
def make (name : String) (group : InputGroup) (spec : InputSpec) (register : Register) : Input :=
  ⟨name, group, spec, [register]⟩

/-- The register the node reads from. -/
def register (i : Input) : Register := i.registers.headD Register.first

def typeTag (i : Input) : String := i.spec.typeTag

def withDefault (i : Input) (value : Json) : Input := { i with spec := i.spec.withDefault value }

/-- Names of whole-number inputs whose editors show a second control that has a value of its own. -/
def seedNames : List String := ["seed", "denoise_seed"]

/-- Does an editor show a second control beside this input, with a value after its own? -/
def hasCompanion (i : Input) : Bool :=
  i.spec.flag "control_after_generate" || i.spec.flag "image_upload" ||
    (i.typeTag == "INT" && seedNames.contains i.name)

end Input

/-- An output of a node and the registers its value is written to. -/
structure Output where
  name : String
  typeTag : String
  consumers : List Register
deriving DecidableEq

/-- Inputs by the names they go by. -/
abbrev InputMap := OrderedMap String Input

namespace Plan

/-- A node of a graph that is being compiled. -/
structure Node where
  id : NodeId
  type : String
  step : Step
  /-- The register of every argument, those of hidden inputs included. -/
  inputMap : OrderedMap String Register
  /-- The inputs that take a positional value or one from the caller. -/
  inputs : List Input
  /-- The inputs that links address, in the order of the node's slots. -/
  slots : List Input
  outputs : List Output
  order : Int64

/-- What grows while the inputs of the nodes get their registers. -/
structure Allotment where
  hidden : InputMap
  next : Register

/-- The inputs of one node as they get their registers. -/
structure Binding where
  inputMap : OrderedMap String Register
  inputs : List Input
  allotment : Allotment

/-- Gives the next input its register: a new one, or for a hidden input whose name is known the
shared one, if the types agree. -/
def Binding.add (b : Binding) (group : InputGroup) (name : String) (spec : InputSpec) :
    Except CompileError Binding :=
  let fresh := Input.make name group spec b.allotment.next
  match group with
  | .hidden =>
    match b.allotment.hidden.find? name with
    | some shared =>
      if shared.typeTag = spec.typeTag then
        .ok { b with inputMap := b.inputMap.insert name shared.register }
      else .error (.hiddenInputTypeMismatch name shared.typeTag spec.typeTag)
    | none =>
      .ok { b with
        inputMap := b.inputMap.insert name fresh.register
        allotment := ⟨b.allotment.hidden.insert name fresh, b.allotment.next.next⟩ }
  | _ =>
    .ok { b with
      inputMap := b.inputMap.insert name fresh.register
      inputs := b.inputs ++ [fresh]
      allotment := { b.allotment with next := b.allotment.next.next } }

def Binding.addAll : Binding → List (InputGroup × String × InputSpec) → Except CompileError Binding
  | b, [] => .ok b
  | b, (group, name, spec) :: entries =>
    match b.add group name spec with
    | .ok b => b.addAll entries
    | .error e => .error e

/-- The node of a step, all of whose inputs are value inputs. -/
def Node.make (id : NodeId) (saved : Graph.Node) (step : Step) (a : Allotment) :
    Except CompileError (Node × Allotment) :=
  match Binding.addAll ⟨.empty, [], a⟩ step.schema.entries with
  | .ok b =>
    .ok ({
      id, type := saved.type, step, inputMap := b.inputMap, inputs := b.inputs, slots := []
      outputs := step.outputs.map fun o => ⟨o.name, o.typeTag, []⟩
      order := saved.order.getD 0 }, b.allotment)
  | .error e => .error e

/-- Takes the first input with a name out of a list. -/
def takeInput? (name : String) : List Input → Option (Input × List Input)
  | [] => none
  | i :: is =>
    if i.name = name then some (i, is)
    else (takeInput? name is).map fun r => (r.1, i :: r.2)

/-- Moves the named inputs of a node, one after the other, from its value inputs to its slots. -/
def Node.separateSlots (n : Node) : List String → Except CompileError Node
  | [] => .ok n
  | name :: names =>
    match takeInput? name n.inputs with
    | some (i, rest) => separateSlots { n with inputs := rest, slots := n.slots ++ [i] } names
    | none =>
      if n.slots.any fun s => s.name == name then .error (.duplicateSlotInput n.id name)
      else .error (.unknownSlotInput n.id name)

/-- Gives inputs their positional values.  After the value of an input with a companion follows that
of the companion, which is passed over. -/
def assignDefaults : List Input → List Json → List Input
  | [], _ => []
  | is, [] => is
  | i :: is, v :: vs =>
    i.withDefault v :: assignDefaults is (if i.hasCompanion then vs.drop 1 else vs)

/-- The node with positional values for its value inputs. -/
def Node.withDefaults (n : Node) (values : List Json) : Node :=
  { n with inputs := assignDefaults n.inputs values }

/-- Makes the nodes of a list, the first of which is at position `start`.  `seen` holds the ids of
the nodes before. -/
def makeNodes (catalog : Catalog) :
    Nat → List NodeId → Allotment → List Graph.Node → Except CompileError (List Node × Allotment)
  | _, _, a, [] => .ok ([], a)
  | start, seen, a, saved :: rest => do
    let id := saved.idAt start
    if id ∈ seen then throw (.duplicateNode id)
    let step ← match catalog saved.type with
      | some step => pure step
      | none => throw (.unknownStepType saved.type)
    let (n, a) ← Node.make id saved step a
    let n ← n.separateSlots (saved.slots.map Graph.Slot.name)
    let (ns, a) ← makeNodes catalog (start + 1) (id :: seen) a rest
    return (n.withDefaults saved.values :: ns, a)

/-- The nodes of a graph by their order, and the hidden inputs they share. -/
structure NodeGraph where
  nodes : List Node
  hidden : InputMap
  next : Register

/-- Makes the nodes of a graph.  Registers are taken from `start` on. -/
def createNodes (catalog : Catalog) (start : Register) (saved : List Graph.Node) :
    Except CompileError NodeGraph := do
  let (nodes, a) ← makeNodes catalog 0 [] ⟨.empty, start⟩ saved
  return ⟨sortBy Node.order nodes, a.hidden, a.next⟩

end Plan

end StepGraph
