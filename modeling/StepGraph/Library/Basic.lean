import StepGraph.Directive.Reading
import StepGraph.Files.Access
import StepGraph.Files.Path
import StepGraph.Graph.Text
import StepGraph.Step.Registry
import StepGraph.Yaml.Reader

/-!
# Libraries of artifacts

A directory of YAML files describes a library: each file holds records under names, and every record
is the directive for an artifact.  The files are merged in the order of their names, and a later
record takes the place of an earlier one of the same name.  A file that cannot be read, or holds no
records, adds nothing.

The artifacts of a library are compiled one after the other and registered as steps, so that a later
graph may use an earlier artifact.  A record that cannot be used is skipped; the others are not
affected.
-/

namespace StepGraph

/-- Why a library or a graph file cannot be loaded. -/
inductive LoadError
  | unreadableDirectory (path : String)
  | unreadableGraph (path : String)
  | invalidGraph (path : String) (fault : Graph.FileFault)
deriving DecidableEq

def LoadError.message : LoadError → String
  | .unreadableDirectory path => s!"Failed to read directive directory {path}"
  | .unreadableGraph path => s!"Failed to read graph file {path}"
  | .invalidGraph path _ => s!"Failed to parse graph file {path}"

namespace Library

/-- What became of reading a file. -/
abbrev Content := Except AccessFault ByteArray

def text? (content : Content) : Option String :=
  match content with
  | .ok bytes => String.fromUTF8? bytes
  | .error _ => none

def graph (path : String) (content : Content) : Except LoadError Graph :=
  match text? content with
  | some text => (Graph.parse text).mapError (.invalidGraph path)
  | none => .error (.unreadableGraph path)

/-- Records by the names of their artifacts. -/
abbrev Records := OrderedMap String Json

/-- The records in a document. -/
def entriesOf : Option Json → List (String × Json)
  | some (.object fields) => fields
  | _ => []

def recordsIn (content : Content) : List (String × Json) :=
  entriesOf ((text? content).bind Yaml.read?)

/-- Does the name of a file say that it holds records? -/
def holdsRecords (name : String) : Bool :=
  Path.extension? name == some "yaml" || Path.extension? name == some "yml"

/-- The files of a directory that hold records, in the order of their names. -/
def recordFiles (names : List String) : List String := Text.sort (names.filter holdsRecords)

/-- The records of a library whose files, in order, have these contents. -/
def records (contents : List Content) : Records :=
  contents.foldl (fun rs content => rs.insertAll (recordsIn content)) .empty

/-- What has been loaded of a library. -/
structure Loaded where
  registry : Registry
  integrated : List Artifact := []
  skipped : List String := []

/-- The artifact of a record, with registers from `start` on; `graphAt` reads the graph file at a
path, and the paths in records start at `base`. -/
def artifact? (graphAt : String → Except LoadError Graph) (base : String) (start : Register)
    (catalog : Catalog) (name : String) (record : Json) : Option Artifact :=
  match Directive.ofJson? record with
  | none => none
  | some d =>
    match graphAt (Path.join base d.workflow) with
    | .error _ => none
    | .ok g => (d.integrateFrom start name catalog g).toOption

/-- Loads one record; `startOf` says from which register on each artifact takes its registers. -/
def loadRecord (graphAt : String → Except LoadError Graph) (base : String)
    (startOf : String → Register) (l : Loaded) (record : String × Json) : Loaded :=
  match artifact? graphAt base (startOf record.1) l.registry.lookup record.1 record.2 with
  | some a => { l with
      registry := l.registry.registerAs record.1 a.displayName a.step
      integrated := l.integrated ++ [a] }
  | none => { l with skipped := l.skipped ++ [record.1] }

def loadFrom (graphAt : String → Except LoadError Graph) (base : String)
    (startOf : String → Register) (registry : Registry) (rs : Records) : Loaded :=
  rs.entries.foldl (loadRecord graphAt base startOf) { registry }

def load (graphAt : String → Except LoadError Graph) (base : String) (registry : Registry)
    (rs : Records) : Loaded :=
  loadFrom graphAt base (fun _ => Register.first) registry rs

/-- The paths of the graph files that records name. -/
def graphPaths (base : String) (rs : Records) : List String :=
  rs.entries.filterMap fun e =>
    (Directive.ofJson? e.2).map fun d => Path.join base d.workflow

end Library

end StepGraph
