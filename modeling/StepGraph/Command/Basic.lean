import StepGraph.Command.Arguments
import StepGraph.Directive.Writing
import StepGraph.Graph.Selection
import StepGraph.Graph.Writing
import StepGraph.Library.Access
import StepGraph.Step.Builtin

/-!
# Commands

What the commands of the program do.  A command works on any file system; what it prints, or why it
fails, is its outcome.
-/

namespace StepGraph

namespace Command

/-- How a command ends. -/
inductive Outcome
  | done (output : String)
  | failed (headline : String)
  /-- The arguments ask for nothing that the program can do. -/
  | misused
deriving DecidableEq

def Outcome.exitCode : Outcome → UInt8
  | .done _ => 0
  | .failed _ => 1
  | .misused => 2

def Outcome.output : Outcome → String
  | .done output => output
  | _ => ""

/-- What the program says of an error. -/
def Outcome.complaint : Outcome → String
  | .failed headline => "Error: " ++ headline
  | _ => ""

/-- The text with spaces behind it, up to a width. -/
def padded (width : Nat) (text : String) : String :=
  text ++ String.ofList (List.replicate (width - text.length) ' ')

def line (text : String) : String := text ++ "\n"

def describe (a : Artifact) : String :=
  String.join (line s!"{a.name} ({a.displayName}) [{a.category}]" ::
    a.plan.inputs.entries.map (fun e =>
      line (String.join
        ["  in  ", padded 24 e.1, " ", padded 10 e.2.typeTag, " ", e.2.group.name])) ++
    a.plan.outputs.map fun o => line (String.join ["  out ", padded 24 o.name, " ", o.typeTag]))

variable {m : Type → Type} [Monad m]

/-- Shows the artifacts of a library, and the names of the records that were skipped. -/
def showLibrary (files : FileAccess m) (directory base : String) : m Outcome := do
  match ← Library.loadDirectory files base Builtin.registry directory with
  | .error e => return .failed e.message
  | .ok l =>
    let skipped :=
      if l.skipped.isEmpty then "" else line ("skipped: " ++ ", ".intercalate l.skipped)
    return .done (String.join (l.integrated.map describe) ++ skipped)

/-- Checks the parameters of a step, if it has a check, and runs it. -/
def runStep (name : String) (step : Step) (params : Params) : Except String StepOutput := do
  if step.validates then
    match (step.validate params).outcome with
    | .error e => throw e.headline
    | .ok (.invalid reason) => throw s!"validation failed for `{name}`: {reason}"
    | .ok .valid => pure ()
  (step.invoke params).outcome.mapError RunError.headline

def outputJson (o : StepOutput) : Json :=
  .object [("result", .array o.values),
    ("ui", .object (o.ui.entries.map fun e => (e.1, .array e.2)))]

def runNode (files : FileAccess m) (directory base node : String) (params : Params) :
    m Outcome := do
  match ← Library.loadDirectory files base Builtin.registry directory with
  | .error e => return .failed e.message
  | .ok l =>
    match l.registry.lookup node with
    | none => return .failed s!"no node named `{node}`"
    | some step =>
      match runStep node step params with
      | .error headline => return .failed headline
      | .ok output => return .done (line (outputJson output).pretty)

/-- The options that export the outputs with these keys, or without keys all that nothing reads. -/
def exportKeys (keys : List String) : ExportOptions :=
  ⟨if keys.isEmpty then none else some keys, .empty⟩

def inspectGraph (files : FileAccess m) (path : String) (keys : List String) : m Outcome := do
  match ← Library.readGraph files path with
  | .error e => return .failed e.message
  | .ok g =>
    match Plan.compile Builtin.registry.lookup g (exportKeys keys) with
    | .error e => return .failed e.message
    | .ok plan =>
      let a := Artifact.ofPlan path plan
      let order := " -> ".intercalate (a.schedule.map NodeId.text)
      return .done (line ("schedule: " ++ order) ++ describe a)

/-- The ids of a selection that no node of the graph goes by. -/
def unknownIds (g : Graph) (ids : List NodeId) : List NodeId :=
  ids.filter fun id => !g.nodeIds.contains id

/-- Writes the graph of a new artifact: a copy of the file, or the selected nodes. -/
def saveGraph (files : FileAccess m) (path : String) (g : Graph) (ids : List NodeId)
    (target : String) : ExceptT String m Unit := do
  if ids.isEmpty then
    (files.copy path target).adapt AccessFault.message
  else
    let unknown := unknownIds g ids
    if !unknown.isEmpty then
      throw ("unknown node ids in selection: " ++ ", ".intercalate (unknown.map NodeId.text))
    let content := ((g.select ids).json.pretty).toUTF8
    (ExceptT.mk (files.write target content)).adapt AccessFault.message

/-- Saves a graph and a directive for a new artifact. -/
def scaffoldArtifact (files : FileAccess m) (path name : String) (category : Option String)
    (out : String) (nodes : List String) : ExceptT String m Unit := do
  let d ← ExceptT.mk
    (pure ((Directive.scaffold name category).mapError Directive.NameFault.message))
  let g ← (ExceptT.mk (Library.readGraph files path)).adapt LoadError.message
  (files.makeDirectories out).adapt AccessFault.message
  let ids := nodes.map fun id => (⟨String.ofList (Text.trim id.toList)⟩ : NodeId)
  saveGraph files path g ids (Path.join out d.workflow)
  (ExceptT.mk (files.write (Path.join out (name ++ ".yaml")) (d.yaml name).toUTF8)).adapt
    AccessFault.message

def perform (files : FileAccess m) : Command → m Outcome
  | .list directory base => showLibrary files directory base
  | .run directory base node params => runNode files directory base node params
  | .inspect graph exports => inspectGraph files graph exports
  | .scaffold graph name category out nodes => do
    match ← (scaffoldArtifact files graph name category out nodes).run with
    | .ok () => return .done ""
    | .error headline => return .failed headline

/-- Does what the arguments of the program ask for. -/
def execute (files : FileAccess m) (arguments : List String) : m Outcome :=
  match ofArguments? arguments with
  | some c => c.perform files
  | none => pure .misused

end Command

end StepGraph
