import StepGraph.Plan.Node

/-!
# The surface of a compiled graph

The surface is what a caller sees: inputs by name, and outputs in a row.  An output is exported if
an allow-list has its key, or, without an allow-list, if nothing reads it; the key is the id of its
node, a space and its name.  Every slot and value input that no link feeds is exported.  A name that
is taken gets the first free suffix `_2`, `_3` and so on.

Afterwards inputs may be merged, so that one value goes to the registers of several, and renamed.  A
merge or renaming that does not apply is passed over with a warning.
-/

namespace StepGraph

/-- An output of a compiled graph, and the register it is read from. -/
structure ExportedOutput where
  name : String
  typeTag : String
  register : Register
deriving DecidableEq

/-- Which outputs are exported, and under which names. -/
structure ExportOptions where
  /-- The keys of the exported outputs; without a list all that nothing reads are exported. -/
  allowed : Option (List String)
  /-- New names by key. -/
  renames : OrderedMap String String
deriving DecidableEq

/-- Every output that nothing reads, under its own name. -/
def ExportOptions.default : ExportOptions := ⟨none, .empty⟩

namespace Plan

/-- The name with a numeric suffix. -/
def suffixed (name : String) (k : Nat) : String := name ++ "_" ++ toString k

/-- The first of `name_k`, `name_(k + 1)` and so on that is not taken, looked for `fuel` steps. -/
def firstFreeFrom (name : String) (taken : List String) : Nat → Nat → String
  | 0, k => suffixed name k
  | fuel + 1, k =>
    if suffixed name k ∈ taken then firstFreeFrom name taken fuel (k + 1) else suffixed name k

/-- The name itself if it is free, else the first free one of `name_2`, `name_3` and so on. -/
def firstFree (name : String) (taken : List String) : String :=
  if name ∈ taken then firstFreeFrom name taken taken.length 2 else name

/-- The key of an output. -/
def exportKey (id : NodeId) (o : Output) : String := id.text ++ " " ++ o.name

/-- Is the output of a node exported? -/
def isExported (options : ExportOptions) (id : NodeId) (o : Output) : Bool :=
  match options.allowed with
  | some keys => keys.contains (exportKey id o)
  | none => o.consumers.isEmpty

/-- The outputs exported so far, and the next register that is free. -/
structure Exports where
  outputs : List ExportedOutput
  next : Register
deriving DecidableEq

/-- Exports one output of a node if the options say so; it then writes to a register of its own. -/
def exportOutput (options : ExportOptions) (id : NodeId) (e : Exports) (o : Output) :
    Output × Exports :=
  if isExported options id o then
    let wanted := (options.renames.find? (exportKey id o)).getD o.name
    let name := firstFree wanted (e.outputs.map ExportedOutput.name)
    ({ o with consumers := o.consumers ++ [e.next] },
      ⟨e.outputs ++ [⟨name, o.typeTag, e.next⟩], e.next.next⟩)
  else (o, e)

def exportNodeOutputs (options : ExportOptions) (id : NodeId) :
    Exports → List Output → List Output × Exports
  | e, [] => ([], e)
  | e, o :: os =>
    let (o, e) := exportOutput options id e o
    let (os, e) := exportNodeOutputs options id e os
    (o :: os, e)

/-- Exports the outputs of nodes after those exported before. -/
def exportOutputsFrom (options : ExportOptions) : Exports → List Node → List Node × Exports
  | e, [] => ([], e)
  | e, n :: ns =>
    let (outputs, e) := exportNodeOutputs options n.id e n.outputs
    let (ns, e) := exportOutputsFrom options e ns
    ({ n with outputs } :: ns, e)

/-- Exports outputs in the order of the nodes.  Registers are taken from `start` on. -/
def exportOutputs (options : ExportOptions) (start : Register) (nodes : List Node) :
    List Node × Exports :=
  exportOutputsFrom options ⟨[], start⟩ nodes

/-- The inputs of a node that can be fed from outside: its slots and then its value inputs. -/
def Node.feeds (n : Node) : List Input := n.slots ++ n.inputs

/-- Exports an input unless a link feeds it. -/
def exportInput (linked : List Register) (surface : InputMap) (i : Input) : InputMap :=
  if i.register ∈ linked then surface else surface.insert (firstFree i.name surface.keys) i

/-- Adds to a surface the inputs of the nodes that no link feeds. -/
def exportInputs (linked : List Register) (surface : InputMap) (nodes : List Node) : InputMap :=
  (nodes.flatMap Node.feeds).foldl (exportInput linked) surface

end Plan

namespace Surface

/-- Why a merge or a renaming is passed over. -/
inductive Warning
  | targetMissing (target : String)
  | selfMerge (source : String)
  | sourceMissing (source : String)
  | typeMismatch (source target sourceType targetType : String)
  | renamedMissing (old : String)
  | nameTaken (old new : String)
deriving DecidableEq

def Warning.message : Warning → String
  | .targetMissing target => s!"target input {target} not found, merging skipped"
  | .selfMerge source => s!"cannot merge input {source} into itself, merging skipped"
  | .sourceMissing source => s!"source input {source} not found, merging skipped"
  | .typeMismatch source target sourceType targetType =>
    s!"cannot merge input {source} into {target}, type mismatch: {sourceType} vs. {targetType}"
  | .renamedMissing old => s!"cannot rename input {old}, no input with this name exists"
  | .nameTaken old new =>
    s!"cannot rename input {old} to {new}, another input with this name already exists"

/-- A surface, and the warnings so far. -/
abbrev Reshaped := InputMap × List Warning

/-- Merges one source into a target whose type is `targetType`. -/
def mergeSource (target targetType : String) (r : Reshaped) (source : String) : Reshaped :=
  let (inputs, warnings) := r
  if source = target then (inputs, warnings ++ [.selfMerge source])
  else
    match inputs.find? source with
    | none => (inputs, warnings ++ [.sourceMissing source])
    | some merged =>
      if merged.typeTag ≠ targetType then
        (inputs, warnings ++ [.typeMismatch source target merged.typeTag targetType])
      else
        ((inputs.erase source).update target fun i =>
          { i with registers := i.registers ++ merged.registers }, warnings)

def mergeEntry (r : Reshaped) (entry : String × List String) : Reshaped :=
  match r.1.find? entry.1 with
  | none => (r.1, r.2 ++ [.targetMissing entry.1])
  | some target => entry.2.foldl (mergeSource entry.1 target.typeTag) r

/-- Merges inputs: a value for a target then goes to the registers of its sources too, and the
sources are gone. -/
def merge (inputs : InputMap) (mapping : OrderedMap String (List String)) : Reshaped :=
  mapping.entries.foldl mergeEntry (inputs, [])

/-- Renames one input, which moves to the end. -/
def renameEntry (r : Reshaped) (entry : String × String) : Reshaped :=
  match r.1.find? entry.1 with
  | none => (r.1, r.2 ++ [.renamedMissing entry.1])
  | some input =>
    if r.1.contains entry.2 then (r.1, r.2 ++ [.nameTaken entry.1 entry.2])
    else ((r.1.erase entry.1).insert entry.2 input, r.2)

def rename (inputs : InputMap) (mapping : OrderedMap String String) : Reshaped :=
  mapping.entries.foldl renameEntry (inputs, [])

end Surface

end StepGraph
