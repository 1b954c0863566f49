import StepGraph.Graph.NodeId

/-!
# Why a graph cannot be compiled
-/

namespace StepGraph

/-- Which end of a link a slot stands at. -/
inductive SlotSide
  | input
  | output
deriving DecidableEq, Repr

def SlotSide.name : SlotSide → String
  | .input => "input"
  | .output => "output"

/-- Why a graph cannot be compiled. -/
inductive CompileError
  | unknownStepType (type : String)
  | duplicateNode (id : NodeId)
  | hiddenInputTypeMismatch (name existing found : String)
  | unknownSlotInput (node : NodeId) (name : String)
  | duplicateSlotInput (node : NodeId) (name : String)
  | unknownNode (id : NodeId)
  | unknownSlot (node : NodeId) (side : SlotSide) (slot : UInt64)
  | linkTypeMismatch (input inputType outputType : String)
  | dependencyCycle (nodes : List NodeId)
deriving DecidableEq, Repr

def CompileError.message : CompileError → String
  | .unknownStepType type => s!"unknown node type `{type}`"
  | .duplicateNode id => s!"duplicate node id {id.text}"
  | .hiddenInputTypeMismatch name existing found =>
    s!"mismatched types for hidden input `{name}`: {found} and {existing}"
  | .unknownSlotInput node name =>
    s!"node {node.text} declares slot `{name}` but its step has no input with that name"
  | .duplicateSlotInput node name => s!"node {node.text} declares slot `{name}` more than once"
  | .unknownNode id => s!"link references unknown node {id.text}"
  | .unknownSlot node side slot => s!"node {node.text} has no {side.name} slot {slot.toNat}"
  | .linkTypeMismatch input inputType outputType =>
    s!"cannot connect input `{input}` of type {inputType} to output of type {outputType}"
  | .dependencyCycle nodes =>
    "dependency loop detected between nodes [" ++
      ", ".intercalate (nodes.map NodeId.text) ++ "]"

end StepGraph
