import StepGraph.Directive.Basic
import StepGraph.Yaml.Writer

/-!
# Writing directives

The record of a directive.  What a directive does not say is left out.
-/

namespace StepGraph.Directive

/-- The field with a value, if there is one. -/
def fieldOf (key : String) : Option Json → List (String × Json)
  | some v => [(key, v)]
  | none => []

/-- The field with the pairs of a map, unless there are none. -/
def mapField {α : Type} (key : String) (value : α → Json) (m : OrderedMap String α) :
    List (String × Json) :=
  if m.isEmpty then [] else [(key, .object (m.entries.map fun e => (e.1, value e.2)))]

def texts (ss : List String) : Json := .array (ss.map .string)

def json (d : Directive) : Json :=
  .object (fieldOf "display_name" (d.displayName.map .string) ++
    [("workflow", .string d.workflow)] ++
    fieldOf "category" (d.category.map .string) ++
    fieldOf "export_outputs" (d.exportOutputs.map texts) ++
    mapField "rename_outputs" .string d.renameOutputs ++
    mapField "merge_inputs" texts d.mergeInputs ++
    mapField "rename_inputs" .string d.renameInputs)

/-- The YAML document with the record under a name. -/
def yaml (d : Directive) (name : String) : String := Yaml.write (.object [(name, d.json)])

end StepGraph.Directive
