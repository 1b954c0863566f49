import StepGraph.Plan.Node
import StepGraph.Step.Run

/-!
# Register stores

The values in the registers during one run.  A store starts with the values the caller gives: each
goes to all registers of the input it is given for.
-/

namespace StepGraph

/-- Values by register. -/
abbrev Store := OrderedMap Register Json

namespace Store

def setAll (s : Store) (registers : List Register) (value : Json) : Store :=
  registers.foldl (fun s r => s.insert r value) s

@[simp] theorem setAll_nil (s : Store) (value : Json) : s.setAll [] value = s := rfl

@[simp] theorem setAll_cons (s : Store) (r : Register) (registers : List Register) (value : Json) :
    s.setAll (r :: registers) value = Store.setAll (s.insert r value) registers value := rfl

/-- Writes parameters to the registers of their inputs, one after the other; a parameter for which
there is no input ends the writing. -/
def seedFrom (inputs : InputMap) : Store → List (String × Json) → Except RunError Store
  | s, [] => .ok s
  | s, (name, value) :: params =>
    match inputs.find? name with
    | some input => seedFrom inputs (s.setAll input.registers value) params
    | none => .error (.unexpectedParameter name)

def seed (inputs : InputMap) (params : Params) : Except RunError Store :=
  seedFrom inputs .empty params.entries

end Store

end StepGraph
