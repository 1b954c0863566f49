import StepGraph.Artifact.Store
import StepGraph.Plan.Basic

/-!
# Running the steps of a compiled graph

A stage reads its arguments from the store and, when it is run, writes each value of its step to the
registers of the output in the same place.  An argument whose register is empty is left out.
-/

namespace StepGraph

namespace Plan.Stage

/-- The arguments that are in the store. -/
def arguments (g : Stage) (s : Store) : Params := g.inputMap.filterMap fun _ r => s.find? r

def validate (g : Stage) (s : Store) : Run Validation :=
  if g.step.validates then
    (g.step.validate (g.arguments s)).mapError (.within .validate g.node g.type)
  else pure .valid

def fingerprint (g : Stage) (s : Store) : Run String :=
  (g.step.fingerprint (g.arguments s)).mapError (.within .fingerprint g.node g.type)

/-- Writes values to the registers of the outputs in the same places; outputs or values that are
left over are passed over. -/
def write : List (List Register) → List Json → Store → Store
  | registers :: outputs, value :: values, s => write outputs values (s.setAll registers value)
  | _, _, s => s

/-- Runs the step: its values go to the store, its report is added to the report so far. -/
def process (g : Stage) (s : Store) (ui : UiMap) : Run (Store × UiMap) := do
  let output ← (g.step.invoke (g.arguments s)).mapError (.within .invoke g.node g.type)
  return (write g.outputs output.values s, ui.merge output.ui)

end Plan.Stage

end StepGraph
