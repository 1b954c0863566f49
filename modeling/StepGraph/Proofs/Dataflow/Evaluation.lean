import StepGraph.Artifact.Basic
import StepGraph.Proofs.Node.Arrangement
import StepGraph.Proofs.Surface.Names

/-!
# Evaluating a graph as it is saved

A graph can be evaluated without compiling it: its vertices run one after the other, and what is
known in between is the `History` of the values that the vertices so far have returned.

The argument that a vertex gets under a name is the parameter of that name if the input is hidden,
the value that links feed to it if there are any, and otherwise the parameter under the name that
the input is exported as. Where no value is known there is no argument. At the end the values of the
exported outputs are looked up in the history.

Nothing here knows of registers, wires or stores.
-/

namespace StepGraph

open Plan

/-- What vertices have returned, the latest first. -/
abbrev History := List (NodeId × List Json)

/-- The value at the last of the places with a property. -/
def lastWhere (p : Nat → Prop) [DecidablePred p] (values : List Json) : Option Json :=
  (values.zipIdx.filter fun e => p e.2).getLast?.map Prod.fst

namespace Vertex

/-- The names of the inputs that can be fed from outside: the slots, then the other visible ones. -/
def feedNames (v : Vertex) : List String :=
  v.slotNames ++ (v.step.schema.visible.map fun e => e.2.1).filter fun x => x ∉ v.slotNames

end Vertex

namespace Graph

variable (catalog : Catalog) (g : Graph)

/-- A link goes from output number `k` of the source to the slot named `x` of the vertex. -/
def Feeds (source : NodeId) (k : Nat) (v : Vertex) (x : String) : Prop :=
  ∃ l ∈ g.links, (l.fromNode = source ∧ l.fromSlot.toNat = k) ∧
    l.toNode = v.id ∧ v.slotNames[l.toSlot.toNat]? = some x

/-- Some link goes to the slot named `x` of the vertex. -/
def Linked (v : Vertex) (x : String) : Prop :=
  ∃ l ∈ g.links, l.toNode = v.id ∧ v.slotNames[l.toSlot.toNat]? = some x

instance (source : NodeId) (k : Nat) (v : Vertex) (x : String) :
    Decidable (g.Feeds source k v x) :=
  inferInstanceAs (Decidable (∃ l ∈ g.links, (l.fromNode = source ∧ l.fromSlot.toNat = k) ∧
    l.toNode = v.id ∧ v.slotNames[l.toSlot.toNat]? = some x))

instance (v : Vertex) (x : String) : Decidable (g.Linked v x) :=
  inferInstanceAs (Decidable (∃ l ∈ g.links, l.toNode = v.id ∧
    v.slotNames[l.toSlot.toNat]? = some x))

/-! ## Arguments -/

/-- The inputs that no link feeds, by the id of their vertex and their name. -/
def openInputs : List (NodeId × String) :=
  (g.arranged catalog).flatMap fun v =>
    (v.feedNames.filter fun x => ¬ g.Linked v x).map fun x => (v.id, x)

/-- The names that these inputs are exported as: the first ones that are free then. -/
def inputNames : List String :=
  exportNames (g.hiddenNames catalog) ((g.openInputs catalog).map Prod.snd)

/-- The name that an input is exported as, if no link feeds it. -/
def exportedName? (v : Vertex) (x : String) : Option String :=
  Entries.find? (v.id, x) ((g.openInputs catalog).zip (g.inputNames catalog))

/-- The value that links feed to a slot: the latest vertex that has returned one for it counts, and
of its outputs the last one. -/
def fedValue? (h : History) (v : Vertex) (x : String) : Option Json :=
  h.findSome? fun e => lastWhere (fun k => g.Feeds e.1 k v x) e.2

/-- The argument of a vertex under a name. -/
def argument? (params : Params) (h : History) (v : Vertex) (x : String) : Option Json :=
  if x ∈ v.step.schema.hidden.keys then params.find? x
  else if g.Linked v x then g.fedValue? h v x
  else (g.exportedName? catalog v x).bind params.find?

/-- The arguments of a vertex, in the order of its inputs. -/
def arguments (params : Params) (h : History) (v : Vertex) : Params :=
  .ofList (v.step.schema.names.filterMap fun x =>
    (g.argument? catalog params h v x).map fun value => (x, value))

/-! ## Runs -/

/-- Runs vertices one after the other, up to the first failure. -/
def evaluateFrom (params : Params) : List Vertex → History → UiMap → Run (History × UiMap)
  | [], h, ui => pure (h, ui)
  | v :: vs, h, ui => do
    let output ← (v.step.invoke (g.arguments catalog params h v)).mapError
      (.within .invoke v.id v.saved.type)
    evaluateFrom params vs ((v.id, output.values) :: h) (ui.merge output.ui)

/-- Is the output of a vertex exported?  Without a list of keys it is if no link leaves it. -/
def isExported (options : ExportOptions) (id : NodeId) (k : Nat) (name : String) : Bool :=
  match options.allowed with
  | some keys => keys.contains (id.text ++ " " ++ name)
  | none => ¬ ∃ l ∈ g.links, l.fromNode = id ∧ l.fromSlot.toNat = k

/-- The exported outputs: the vertex, the number of the output, and the name it should have. -/
def exportedOutputs (options : ExportOptions) : List (NodeId × Nat × String) :=
  (g.arranged catalog).flatMap fun v =>
    (v.step.outputs.zipIdx.filter fun e => g.isExported options v.id e.2 e.1.name).map fun e =>
      (v.id, e.2, (options.renames.find? (v.id.text ++ " " ++ e.1.name)).getD e.1.name)

/-- The names that outputs are exported as: the first ones that are free then. -/
def outputNames (options : ExportOptions) : List String :=
  exportNames [] ((g.exportedOutputs catalog options).map fun e => e.2.2)

/-- The value that a vertex has returned at an output. -/
def returned? (h : History) (id : NodeId) (k : Nat) : Option Json :=
  h.findSome? fun e => if e.1 = id then e.2[k]? else none

/-- Looks up outputs by name; the first one without a value ends the reading. -/
def collect (h : History) : List (String × NodeId × Nat) → Except RunError (List Json)
  | [] => .ok []
  | (name, id, k) :: rest =>
    match returned? h id k with
    | some value => (collect h rest).map (value :: ·)
    | none => .error (.missingOutput name)

/-- Evaluates a graph by running its vertices in an order. -/
def evaluate (options : ExportOptions) (params : Params) (order : List Vertex) :
    Run ProcessResult := do
  let (h, ui) ← g.evaluateFrom catalog params order [] .empty
  let values ← Run.ofExcept (collect h ((g.outputNames catalog options).zip
    ((g.exportedOutputs catalog options).map fun e => (e.1, e.2.1))))
  return ⟨values, ui⟩

end Graph

end StepGraph
