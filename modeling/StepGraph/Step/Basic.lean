import StepGraph.Step.Run
import StepGraph.Step.Schema

/-!
# Steps

A step is what a node of a graph runs.  Its hooks are functions of its arguments.  `validates` and
`detectsChange` say whether the two optional hooks are there; the functions stand for every step,
and those of a step without the hook accept everything and name nothing.
-/

namespace StepGraph

/-- Values reported beside the outputs, by channel. -/
abbrev UiMap := OrderedMap String (List Json)

/-- Adds values at the end of a channel, which is opened if need be. -/
def UiMap.append (ui : UiMap) (channel : String) (values : List Json) : UiMap :=
  ui.insert channel ((ui.find? channel).getD [] ++ values)

/-- Adds the channels of `more` at the end of those of `ui`. -/
def UiMap.merge (ui more : UiMap) : UiMap :=
  more.entries.foldl (fun ui e => UiMap.append ui e.1 e.2) ui

/-- What a step gives when it is run: values, with or without a report beside them. -/
inductive StepOutput
  | plain (values : List Json)
  | structured (values : List Json) (ui : UiMap)
deriving DecidableEq

/-- The values for the outputs. -/
def StepOutput.values : StepOutput → List Json
  | .plain values => values
  | .structured values _ => values

/-- The report; empty if there is none. -/
def StepOutput.ui : StepOutput → UiMap
  | .plain _ => .empty
  | .structured _ ui => ui

inductive Validation
  | valid
  | invalid (reason : String)
deriving DecidableEq

/-- A step: what it declares, and its hooks. -/
structure Step where
  schema : InputSchema
  outputs : List OutputSpec
  /-- Does the step show something even if nothing reads its outputs? -/
  isOutputNode : Bool := false
  validates : Bool := false
  validate : Params → Run Validation := fun _ => pure .valid
  detectsChange : Bool := false
  fingerprint : Params → Run String := fun _ => pure ""
  invoke : Params → Run StepOutput

/-- The steps that a graph may use, by the names of their types. -/
abbrev Catalog := String → Option Step

end StepGraph
