import StepGraph.Json.Reader
import StepGraph.Graph.Reading

/-!
# Graph files

The text of a graph file is a graph, or a collection of templates of which the first one counts.  A
template holds the text of its graph in a string.
-/

namespace StepGraph.Graph

/-- Why the text of a graph file is refused. -/
inductive FileFault
  | notJson
  | notObject
  | graph (fault : Fault)
  | noTemplates
  | templateNotObject
  | templateWithoutData
  | template (fault : Fault)
deriving DecidableEq

def FileFault.message : FileFault → String
  | .notJson => "graph is not valid JSON"
  | .notObject => "graph is not a dictionary"
  | .graph _ => "failed to deserialize graph"
  | .noTemplates => "node templates file contains no templates"
  | .templateNotObject => "node template is not a dictionary"
  | .templateWithoutData => "node template has no data string"
  | .template _ => "node template data isn't a valid JSON graph"

def FileFault.detail? : FileFault → Option String
  | .graph fault | .template fault => fault.detail?
  | _ => none

/-- Reads a graph straight from its text. -/
def ofText (text : String) : Read Graph :=
  match Json.readDraft text with
  | (d, complete) => do
    let g ← ofDraft d
    if complete then return g else .error .malformed

def ofTemplate (template : Json) : Except FileFault Graph :=
  match template with
  | .object fields =>
    match Entries.find? "data" fields with
    | some (.string data) => (ofText data).mapError .template
    | _ => .error .templateWithoutData
  | _ => .error .templateNotObject

def parse (text : String) : Except FileFault Graph :=
  match Json.read? text with
  | none => .error .notJson
  | some v =>
    match v with
    | .object fields =>
      match Entries.find? "templates" fields with
      | some (.array []) => .error .noTemplates
      | some (.array (template :: _)) => ofTemplate template
      | _ => (ofJson v).mapError .graph
    | _ => .error .notObject

end StepGraph.Graph
