import StepGraph.Artifact.Basic
import StepGraph.Directive.Name

/-!
# Directives

A directive says how a saved graph becomes an artifact: where the graph is, how the artifact is
shown, which outputs are exported and under which names, and how its inputs are merged and renamed.
-/

namespace StepGraph

/-- How a saved graph becomes an artifact. -/
structure Directive where
  displayName : Option String
  /-- The path of the graph file. -/
  workflow : String
  category : Option String
  /-- The keys of the exported outputs; without a list all that nothing reads are exported. -/
  exportOutputs : Option (List String)
  renameOutputs : OrderedMap String String
  mergeInputs : OrderedMap String (List String)
  renameInputs : OrderedMap String String
deriving DecidableEq

namespace Directive

/-- The directive that only says where the graph is. -/
def ofWorkflow (workflow : String) : Directive :=
  { displayName := none, workflow, category := none, exportOutputs := none, renameOutputs := .empty
    mergeInputs := .empty, renameInputs := .empty }

def exportOutput (d : Directive) (key : String) : Directive :=
  { d with exportOutputs := some (d.exportOutputs.getD [] ++ [key]) }

def renameOutput (d : Directive) (key name : String) : Directive :=
  { d with renameOutputs := d.renameOutputs.insert key name }

def mergeInput (d : Directive) (target : String) (sources : List String) : Directive :=
  { d with mergeInputs :=
      d.mergeInputs.insert target ((d.mergeInputs.find? target).getD [] ++ sources) }

def renameInput (d : Directive) (old new : String) : Directive :=
  { d with renameInputs := d.renameInputs.insert old new }

def withDisplayName (d : Directive) (name : String) : Directive :=
  { d with displayName := some name }

def withCategory (d : Directive) (category : String) : Directive :=
  { d with category := some category }

/-- The category of the artifact. -/
def categoryOrDefault (d : Directive) : String := d.category.getD defaultCategory

/-- Drops an element that equals the one before it. -/
def dropRepeats : List String → List String
  | [] => []
  | [a] => [a]
  | a :: b :: as => if a = b then dropRepeats (b :: as) else a :: dropRepeats (b :: as)

/-- The keys of the exported outputs in order, each once. -/
def exportSet (d : Directive) : Option (List String) :=
  d.exportOutputs.map fun keys => dropRepeats (Text.sort keys)

/-- The directive for a graph that has just been saved under a name: the file is named after it. -/
def scaffold (name : String) (category : Option String) : Except NameFault Directive := do
  checkName name
  let given := (category.map fun c => String.ofList (Text.trim c.toList)).filter fun c => !c.isEmpty
  return ((ofWorkflow (name ++ ".json")).withDisplayName name).withCategory
    (given.getD "Integrated")

/-- What the directive says about the outputs of its graph. -/
def exportOptions (d : Directive) : ExportOptions := ⟨d.exportSet, d.renameOutputs⟩

/-- Compiles a graph as the directive says.  Registers are taken from `start` on. -/
def integrateFrom (start : Register) (d : Directive) (name : String) (catalog : Catalog)
    (g : Graph) : Except CompileError Artifact := do
  let plan ← Plan.compileFrom start catalog g d.exportOptions
  let merged := (plan.mergeInputs d.mergeInputs).1
  let renamed := (merged.renameInputs d.renameInputs).1
  return ((Artifact.ofPlan name renamed).withDisplayName (d.displayName.getD name)).withCategory
    d.categoryOrDefault

def integrate (d : Directive) (name : String) (catalog : Catalog) (g : Graph) :
    Except CompileError Artifact :=
  d.integrateFrom Register.first name catalog g

end Directive

end StepGraph
