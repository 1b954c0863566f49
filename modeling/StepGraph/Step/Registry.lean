import StepGraph.Sorting
import StepGraph.Step.Basic

/-!
# Registries of steps

A registry holds steps under the names of their types, and for some of them a name to show.
Registering under a name that is taken replaces the step and keeps the shown name.
-/

namespace StepGraph

/-- Steps by the names of their types, and names to show. -/
structure Registry where
  steps : OrderedMap String Step
  displayNames : OrderedMap String String

namespace Registry

def empty : Registry := ⟨.empty, .empty⟩

def register (r : Registry) (name : String) (step : Step) : Registry :=
  { r with steps := r.steps.insert name step }

/-- Registers a step with a name to show. -/
def registerAs (r : Registry) (name displayName : String) (step : Step) : Registry :=
  { steps := r.steps.insert name step, displayNames := r.displayNames.insert name displayName }

def lookup (r : Registry) : Catalog := fun name => r.steps.find? name

def contains (r : Registry) (name : String) : Bool := r.steps.contains name

/-- The name to show for a type: the registered one, or that of the type itself. -/
def displayName? (r : Registry) (name : String) : Option String :=
  match r.displayNames.find? name with
  | some shown => some shown
  | none => if r.contains name then some name else none

/-- The names of the types, in order. -/
def names (r : Registry) : List String := Text.sort r.steps.keys

def size (r : Registry) : Nat := r.steps.size

end Registry

end StepGraph
