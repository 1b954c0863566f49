import StepGraph.Directive.Basic

/-!
# Reading directives

A directive is read from a record of a configuration.  Reading is lenient: the record has to be an
object with a text under `workflow`, and any other part that has the wrong shape is dropped by
itself.  Numbers and truth values may stand for texts.
-/

namespace StepGraph.Directive

/-- The text a scalar stands for; lists, objects and `null` stand for none. -/
def scalarText? : Json → Option String
  | .string s => some s
  | .number n => some n.text
  | .bool b => some (if b then "true" else "false")
  | _ => none

/-- The texts among the items of a list. -/
def readTexts (items : List Json) : List String := items.filterMap scalarText?

/-- The list of exported outputs, if there is one. -/
def readExports : Option Json → Option (List String)
  | some (.array items) => some (readTexts items)
  | _ => none

/-- The fields of an object whose values stand for texts. -/
def readRenames : Option Json → OrderedMap String String
  | some (.object fields) =>
    .ofList (fields.filterMap fun e => (scalarText? e.2).map fun s => (e.1, s))
  | _ => .empty

/-- The sources of a merge: a list of texts, or one text. -/
def readSources? : Json → Option (List String)
  | .array items => some (readTexts items)
  | v => (scalarText? v).map fun s => [s]

/-- The fields of an object whose values are sources of a merge. -/
def readMerges : Option Json → OrderedMap String (List String)
  | some (.object fields) =>
    .ofList (fields.filterMap fun e => (readSources? e.2).map fun s => (e.1, s))
  | _ => .empty

/-- Reads a directive; nothing if the record is no object or says nowhere where the graph is. -/
def ofJson? (record : Json) : Option Directive :=
  match record.field? "workflow" with
  | some (.string workflow) => some {
      displayName := (record.field? "display_name").bind scalarText?
      workflow
      category := (record.field? "category").bind scalarText?
      exportOutputs := readExports (record.field? "export_outputs")
      renameOutputs := readRenames (record.field? "rename_outputs")
      mergeInputs := readMerges (record.field? "merge_inputs")
      renameInputs := readRenames (record.field? "rename_inputs") }
  | _ => none

end StepGraph.Directive
