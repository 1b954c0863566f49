import StepGraph.Json.Draft

/-!
# What a step takes and gives

A step declares its inputs in three groups and its outputs in a row.  An input has a type and
free-form metadata; the entry `default` of the metadata is the value the input has when nothing
feeds it.
-/

namespace StepGraph

/-- The group an input is declared in.  Hidden inputs have no position and are shared by name across
a graph. -/
inductive InputGroup
  | required
  | optional
  | hidden
deriving DecidableEq, Repr

def InputGroup.name : InputGroup → String
  | .required => "required"
  | .optional => "optional"
  | .hidden => "hidden"

/-- The declared type of an input and its metadata. -/
structure InputSpec where
  typeTag : String
  metadata : OrderedMap String Json
deriving DecidableEq

namespace InputSpec

def ofType (typeTag : String) : InputSpec := ⟨typeTag, .empty⟩

def withEntry (s : InputSpec) (key : String) (value : Json) : InputSpec :=
  { s with metadata := s.metadata.insert key value }

/-- The value of the input when nothing feeds it. -/
def default? (s : InputSpec) : Option Json := s.metadata.find? "default"

/-- The input with this value when nothing feeds it. -/
def withDefault (s : InputSpec) (value : Json) : InputSpec := s.withEntry "default" value

/-- Is the entry of the metadata `true`? -/
def flag (s : InputSpec) (key : String) : Bool := s.metadata.find? key == some (.bool true)

/-- Reads metadata, which may be missing. -/
def readMetadata : Option Json → Option (OrderedMap String Json)
  | none => some .empty
  | some (.object fields) => some (.ofList fields)
  | some _ => none

/-- Reads the declaration of an input: an object with the type and perhaps metadata, or a list of
the two. -/
def ofJson? : Json → Option InputSpec
  | .object fields =>
    match Entries.find? "type" fields with
    | some (.string typeTag) =>
      (readMetadata (Entries.find? "meta" fields)).map fun metadata => ⟨typeTag, metadata⟩
    | _ => none
  | .array [.string typeTag] => some (.ofType typeTag)
  | .array [.string typeTag, metadata] =>
    (readMetadata (some metadata)).map fun metadata => ⟨typeTag, metadata⟩
  | _ => none

/-- The JSON form; empty metadata is left out. -/
def json (s : InputSpec) : Json :=
  .object (("type", .string s.typeTag) ::
    if s.metadata.isEmpty then [] else [("meta", .object s.metadata.entries)])

end InputSpec

/-- The inputs of a step by group, each group in declaration order. -/
structure InputSchema where
  required : OrderedMap String InputSpec
  optional : OrderedMap String InputSpec
  hidden : OrderedMap String InputSpec
deriving DecidableEq

namespace InputSchema

def empty : InputSchema := ⟨.empty, .empty, .empty⟩

def insert (s : InputSchema) (group : InputGroup) (name : String) (spec : InputSpec) :
    InputSchema :=
  match group with
  | .required => { s with required := s.required.insert name spec }
  | .optional => { s with optional := s.optional.insert name spec }
  | .hidden => { s with hidden := s.hidden.insert name spec }

/-- All inputs: the required ones, the optional ones, the hidden ones. -/
def entries (s : InputSchema) : List (InputGroup × String × InputSpec) :=
  s.required.entries.map (fun e => (.required, e)) ++
    s.optional.entries.map (fun e => (.optional, e)) ++
    s.hidden.entries.map (fun e => (.hidden, e))

def size (s : InputSchema) : Nat := s.required.size + s.optional.size + s.hidden.size

/-- The JSON form: an object for every group that is not empty. -/
def json (s : InputSchema) : Json :=
  let group (name : String) (inputs : OrderedMap String InputSpec) : List (String × Json) :=
    if inputs.isEmpty then []
    else [(name, .object (inputs.entries.map fun e => (e.1, e.2.json)))]
  .object (group "required" s.required ++ group "optional" s.optional ++ group "hidden" s.hidden)

end InputSchema

/-- A declared output: its type and the name it is shown under. -/
structure OutputSpec where
  typeTag : String
  name : String
deriving DecidableEq

/-- An output shown under the name of its type. -/
def OutputSpec.ofType (typeTag : String) : OutputSpec := ⟨typeTag, typeTag⟩

end StepGraph
