import StepGraph.Graph.NodeId

/-!
# Running steps

A step has up to three hooks: it is run, it checks its arguments, it names what its answer depends
on.  `Run α` is the outcome of calling hooks: the calls that were recorded, in order, and a value or
the error that ended the run.  The calls made before an error are kept.
-/

namespace StepGraph

/-- Arguments by name. -/
abbrev Params := OrderedMap String Json

/-- The hooks of a step. -/
inductive Hook
  | invoke
  | validate
  | fingerprint
deriving DecidableEq, Repr

def Hook.name : Hook → String
  | .invoke => "invoke"
  | .validate => "validate"
  | .fingerprint => "fingerprint"

/-- A recorded call of a hook of the step named `step`. -/
structure HookCall where
  hook : Hook
  step : String
  arguments : List (String × Json)
deriving DecidableEq

/-- Why a run ended. -/
inductive RunError
  | unexpectedParameter (name : String)
  | missingOutput (name : String)
  /-- The step itself failed. -/
  | step (message : String)
  /-- A hook of a node ended with `cause`. -/
  | within (hook : Hook) (node : NodeId) (type : String) (cause : RunError)
deriving DecidableEq

namespace RunError

/-- The wording of an error without what lies behind it. -/
def headline : RunError → String
  | .unexpectedParameter name => s!"unexpected parameter `{name}`"
  | .missingOutput name => s!"output `{name}` was never written by any step"
  | .step message => message
  | .within .invoke node type _ => s!"node {node.text} ({type}) failed"
  | .within .validate node type _ => s!"validating node {node.text} ({type})"
  | .within .fingerprint node type _ => s!"fingerprinting node {node.text} ({type})"

/-- The error at the bottom. -/
def root : RunError → RunError
  | .within _ _ _ cause => cause.root
  | e => e

/-- The wording of an error and of everything behind it. -/
def message : RunError → String
  | .within hook node type cause => (within hook node type cause).headline ++ ": " ++ cause.message
  | e => e.headline

end RunError

/-- The recorded calls of a run and its outcome. -/
structure Run (α : Type) where
  calls : List HookCall
  outcome : Except RunError α

namespace Run

variable {α β : Type}

protected def pure (a : α) : Run α := ⟨[], .ok a⟩

/-- Goes on with the value of a run; an error ends both. -/
protected def bind (r : Run α) (f : α → Run β) : Run β :=
  match r.outcome with
  | .ok a => ⟨r.calls ++ (f a).calls, (f a).outcome⟩
  | .error e => ⟨r.calls, .error e⟩

instance : Monad Run where
  pure := Run.pure
  bind := Run.bind

instance : LawfulMonad Run := by
  refine LawfulMonad.mk' Run ?id_map (fun _ _ => rfl) ?bind_assoc
  case id_map =>
    rintro α ⟨calls, outcome⟩
    cases outcome with
    | error e => rfl
    | ok a => exact congrArg (Run.mk · (.ok a)) (List.append_nil calls)
  case bind_assoc =>
    rintro α β γ ⟨calls, outcome⟩ f f'
    cases outcome with
    | error e => rfl
    | ok a =>
      simp only [Bind.bind, Run.bind]
      cases (f a).outcome with
      | error e => rfl
      | ok b => simp only [List.append_assoc]

def fail (e : RunError) : Run α := ⟨[], .error e⟩

def ofExcept (outcome : Except RunError α) : Run α := ⟨[], outcome⟩

def record (call : HookCall) : Run Unit := ⟨[call], .ok ()⟩

def mapError (f : RunError → RunError) (r : Run α) : Run α := ⟨r.calls, r.outcome.mapError f⟩

end Run

end StepGraph
