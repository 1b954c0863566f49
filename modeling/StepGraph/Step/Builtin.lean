import StepGraph.Formula.Eval
import StepGraph.Json.Writer
import StepGraph.Step.Registry

/-!
# Built-in steps

Five steps that are there without any graph: a constant, a seed, a formula, the joining of two texts
and the display of a text.
-/

namespace StepGraph.Builtin

def argument (params : Params) (name : String) : Except RunError Json :=
  match params.find? name with
  | some v => .ok v
  | none => .error (.step s!"missing parameter `{name}`")

/-- The text of an argument: a text itself, any other value as JSON. -/
def textArgument (params : Params) (name : String) : Except RunError String := do
  match ← argument params name with
  | .string s => return s
  | v => return v.compact

def input (typeTag : String) (default : Json) : InputSpec :=
  (InputSpec.ofType typeTag).withDefault default

/-- Passes a whole number on. -/
def constant : Step where
  schema := InputSchema.empty.insert .required "value" (input "INT" (Json.ofInt 0))
  outputs := [⟨"INT", "value"⟩]
  invoke params := Run.ofExcept do
    match ← argument params "value" with
    | .number n =>
      match n.int64? with
      | some i => return .plain [Json.ofInt i.toInt]
      | none => throw (.step "`value` must be an integer")
    | _ => throw (.step "`value` must be an integer")

/-- Passes a seed on; the seed is what the answer depends on. -/
def seed : Step where
  schema := InputSchema.empty.insert .required "seed"
    ((input "INT" (Json.ofInt 0)).withEntry "control_after_generate" (.bool true))
  outputs := [⟨"INT", "seed"⟩]
  detectsChange := true
  fingerprint params := Run.ofExcept do
    return (← argument params "seed").compact
  invoke params := Run.ofExcept do
    return .plain [← argument params "seed"]

/-- The names that a formula can use, as far as they are given. -/
def bindings (params : Params) : List String → Except RunError Formula.Bindings
  | [] => .ok []
  | name :: names =>
    match params.find? name with
    | none => bindings params names
    | some (.number n) =>
      let v : Formula.Value := match n.int64? with
        | some i => .int i
        | none => .float n.toFloat
      (bindings params names).map ((name, v) :: ·)
    | some v => .error (.step s!"`{name}` must be a number, got {v.compact}")

/-- Evaluates a formula over the numbers `a` and `b`. -/
def expression : Step where
  schema := ((InputSchema.empty.insert .required "expression"
    (input "STRING" (.string "a + b"))).insert .optional "a" (.ofType "FLOAT")).insert
      .optional "b" (.ofType "FLOAT")
  outputs := [⟨"FLOAT", "result"⟩]
  validates := true
  validate params := pure <|
    match params.find? "expression" with
    | some (.string text) =>
      match Formula.parse text with
      | .ok _ => .valid
      | .error e => .invalid s!"invalid expression `{text}`: {e.message}"
    | _ => .invalid "expression must be a string"
  invoke params := Run.ofExcept do
    let text ← textArgument params "expression"
    let names ← bindings params ["a", "b"]
    match Formula.evaluate names text with
    | .ok (.int n) => return .plain [Json.ofFloat (Formula.Value.floatOfInt n)]
    | .ok (.float x) => return .plain [Json.ofFloat x]
    | .ok v => throw (.step s!"expression `{text}` did not produce a number: {v.shown}")
    | .error e => throw (.step e.message)

/-- Joins two texts with a third between them. -/
def joinText : Step where
  schema := ((InputSchema.empty.insert .required "text_a" (.ofType "STRING")).insert
    .required "text_b" (.ofType "STRING")).insert
      .required "separator" (input "STRING" (.string " "))
  outputs := [⟨"STRING", "text"⟩]
  invoke params := Run.ofExcept do
    let separator := match params.find? "separator" with
      | some (.string s) => s
      | _ => " "
    let first ← textArgument params "text_a"
    let second ← textArgument params "text_b"
    return .plain [.string (first ++ separator ++ second)]

/-- Reports a text. -/
def showText : Step where
  schema := (InputSchema.empty.insert .required "text" (.ofType "STRING")).insert
    .hidden "unique_id" (.ofType "UNIQUE_ID")
  outputs := []
  isOutputNode := true
  invoke params := Run.ofExcept do
    let text ← textArgument params "text"
    return .structured [] (UiMap.append .empty "text" [.string text])

/-- A registry with the built-in steps. -/
def registry : Registry :=
  ((((Registry.empty.register "Constant" constant).register "Seed" seed).register
    "Expression" expression).register "JoinText" joinText).register "ShowText" showText

end StepGraph.Builtin
