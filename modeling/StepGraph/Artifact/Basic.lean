import StepGraph.Artifact.Stage

/-!
# Artifacts

An artifact is a compiled graph with a name.  It can be run, checked and fingerprinted as a whole,
and it is itself a step (`Artifact.step`), so that graphs can use it like any other.
-/

namespace StepGraph

/-- The category of an artifact where nothing else is said. -/
def defaultCategory : String := "integrated"

/-- A compiled graph with a name. -/
structure Artifact where
  name : String
  displayName : String
  category : String
  plan : Plan

/-- The values of the exported outputs, and what the steps reported beside them. -/
structure ProcessResult where
  values : List Json
  ui : UiMap
deriving DecidableEq

namespace Artifact

def ofPlan (name : String) (plan : Plan) : Artifact := ⟨name, name, defaultCategory, plan⟩

def withDisplayName (a : Artifact) (name : String) : Artifact := { a with displayName := name }

def withCategory (a : Artifact) (category : String) : Artifact := { a with category }

/-- The ids of the nodes in the order they run. -/
def schedule (a : Artifact) : List NodeId := a.plan.stages.map Plan.Stage.node

def processStages : List Plan.Stage → Store → UiMap → Run (Store × UiMap)
  | [], s, ui => pure (s, ui)
  | g :: stages, s, ui => do
    let (s, ui) ← g.process s ui
    processStages stages s ui

/-- Reads exported outputs from the store; the first one that was never written ends the reading. -/
def readOutputs (s : Store) : List ExportedOutput → Except RunError (List Json)
  | [] => .ok []
  | o :: outputs =>
    match s.find? o.register with
    | some value => (readOutputs s outputs).map (value :: ·)
    | none => .error (.missingOutput o.name)

/-- Runs the artifact: all its steps once, in their order. -/
def process (a : Artifact) (params : Params) : Run ProcessResult := do
  let s ← Run.ofExcept (Store.seed a.plan.inputs params)
  let (s, ui) ← processStages a.plan.stages s .empty
  let values ← Run.ofExcept (readOutputs s a.plan.outputs)
  return ⟨values, ui⟩

/-- Checks stages up to the first one that does not accept. -/
def validateStages (s : Store) : List Plan.Stage → Run Validation
  | [] => pure .valid
  | g :: stages => do
    match ← g.validate s with
    | .valid => validateStages s stages
    | .invalid reason => return .invalid reason

/-- Checks the parameters with the checks of the steps, in their order. -/
def validate (a : Artifact) (params : Params) : Run Validation := do
  let s ← Run.ofExcept (Store.seed a.plan.inputs params)
  validateStages s a.plan.stages

def fingerprintStages (s : Store) : List Plan.Stage → Run String
  | [] => pure ""
  | g :: stages => do
    let text ← g.fingerprint s
    let rest ← fingerprintStages s stages
    return text ++ rest

/-- The fingerprints of all steps that detect changes, in their order, in one text. -/
def fingerprint (a : Artifact) (params : Params) : Run String := do
  let s ← Run.ofExcept (Store.seed a.plan.inputs params)
  fingerprintStages s (a.plan.stages.filter fun g => g.step.detectsChange)

/-- The exported inputs, declared in the groups they come from. -/
def schema (a : Artifact) : InputSchema :=
  a.plan.inputs.entries.foldl (fun s e => s.insert e.2.group e.1 e.2.spec) .empty

def step (a : Artifact) : Step where
  schema := a.schema
  outputs := a.plan.outputs.map fun o => ⟨o.typeTag, o.name⟩
  isOutputNode := a.plan.isOutputNode
  validates := a.plan.stages.any fun g => g.step.validates
  validate := a.validate
  detectsChange := a.plan.stages.any fun g => g.step.detectsChange
  fingerprint := a.fingerprint
  invoke params := do
    let result ← a.process params
    return .structured result.values result.ui

end Artifact

end StepGraph
