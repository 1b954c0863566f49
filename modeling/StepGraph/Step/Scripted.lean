import StepGraph.Json.Writer
import StepGraph.Sorting
import StepGraph.Step.Basic

/-!
# Scripted steps

A scripted step is described by data instead of code: what it declares, and for each hook one of a
few simple behaviours.  Every call of a hook is recorded with its arguments in the order of their
names.
-/

namespace StepGraph

namespace Script

/-- What a scripted step does when it is run. -/
inductive Action
  | nothing
  | const (values : List Json)
  /-- The arguments with these names, `null` for a missing one. -/
  | params (names : List String)
  /-- One value: all arguments as pairs in the order of their names. -/
  | all
  /-- One value: the sum of the arguments with these names, which wraps at 64 bits. -/
  | sum (names : List String)
  | fail (message : String)

/-- How a scripted step checks its arguments. -/
inductive Check
  | accept
  | reject (reason : String)
  | fail (message : String)
  /-- All of these arguments have to be there. -/
  | require (names : List String)
  /-- This argument, if it is a whole number, may not be negative. -/
  | nonneg (name : String)

/-- What a scripted step names as its fingerprint. -/
inductive Print
  | text (text : String)
  | param (name : String)
  | fail (message : String)

/-- The arguments in the order of their names. -/
def sorted (params : Params) : List (String × Json) := Text.sortByText Prod.fst params.entries

/-- The argument with a name, `null` if it is missing. -/
def argument (params : Params) (name : String) : Json := (params.find? name).getD .null

/-- The argument with a name, if it is a whole number of 64 bits. -/
def int64? (params : Params) (name : String) : Option Int64 :=
  match params.find? name with
  | some (.number n) => n.int64?
  | _ => none

def sumOf (params : Params) : Int64 → List String → Except RunError Int64
  | total, [] => .ok total
  | total, name :: names =>
    match int64? params name with
    | some n => sumOf params (total + n) names
    | none => .error (.step s!"missing integer `{name}`")

def Action.values (params : Params) : Action → Except RunError (List Json)
  | .nothing => .ok []
  | .const values => .ok values
  | .params names => .ok (names.map (argument params))
  | .all => .ok [.array ((sorted params).map fun e => .array [.string e.1, e.2])]
  | .sum names => (sumOf params 0 names).map fun n => [Json.ofInt n.toInt]
  | .fail message => .error (.step message)

def Check.answer (params : Params) : Check → Except RunError Validation
  | .accept => .ok .valid
  | .reject reason => .ok (.invalid reason)
  | .fail message => .error (.step message)
  | .require names =>
    match names.find? fun name => !params.contains name with
    | some name => .ok (.invalid s!"missing {name}")
    | none => .ok .valid
  | .nonneg name =>
    match int64? params name with
    | some n =>
      if n < 0 then .ok (.invalid s!"value must be non-negative, got {n.toInt}") else .ok .valid
    | none => .ok .valid

def Print.answer (params : Params) : Print → Except RunError String
  | .text s => .ok s
  | .param name =>
    .ok (name ++ "=" ++ match params.find? name with
      | some v => v.compact
      | none => "")
  | .fail message => .error (.step message)

end Script

/-- The description of a scripted step. -/
structure Script where
  type : String
  schema : InputSchema
  outputs : List OutputSpec
  isOutputNode : Bool
  action : Script.Action
  /-- Channels and the arguments reported on them, one entry per value; none if nothing is
  reported. -/
  ui : Option (List (String × String))
  check : Option Script.Check
  print : Option Script.Print

namespace Script

/-- The report of a scripted step. -/
def report (params : Params) (entries : List (String × String)) : UiMap :=
  entries.foldl (fun ui e => UiMap.append ui e.1 [argument params e.2]) .empty

def step (s : Script) : Step where
  schema := s.schema
  outputs := s.outputs
  isOutputNode := s.isOutputNode
  validates := s.check.isSome
  validate params := do
    Run.record ⟨.validate, s.type, sorted params⟩
    match s.check with
    | some check => Run.ofExcept (check.answer params)
    | none => return .valid
  detectsChange := s.print.isSome
  fingerprint params := do
    Run.record ⟨.fingerprint, s.type, sorted params⟩
    match s.print with
    | some print => Run.ofExcept (print.answer params)
    | none => return ""
  invoke params := do
    Run.record ⟨.invoke, s.type, sorted params⟩
    let values ← Run.ofExcept (s.action.values params)
    match s.ui with
    | some entries => return .structured values (report params entries)
    | none => return .plain values

end Script

end StepGraph
