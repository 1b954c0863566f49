import StepGraph.Json.Basic

/-!
# JSON texts as far as they can be read

A `Draft` is what a JSON text says up to its first fault.  It differs from a `Json` value in two
ways: an object may repeat a key, and a value may be cut short.  A text without a fault gives a
draft in which nothing is cut (`Draft.value?` is defined on it), and a reader that works through a
draft in order meets the faults of the text and the faults of its content in the order in which they
stand there.

Every value is a draft (`Json.draft`), so a reader of drafts reads values too.
-/

namespace StepGraph.Json

/-- A JSON text as far as it can be read. -/
inductive Draft
  | null
  | bool (b : Bool)
  | number (n : Number)
  | string (s : String)
  /-- The items; a list that is not `closed` ends in a fault. -/
  | array (items : List Draft) (closed : Bool)
  /-- The fields, repeated keys included; an object that is not `closed` ends in a fault. -/
  | object (fields : List (String × Draft)) (closed : Bool)
  /-- A fault stands in place of the value. -/
  | cut
deriving Inhabited

mutual

/-- The draft of a text that says just this value. -/
def draft : Json → Draft
  | .null => .null
  | .bool b => .bool b
  | .number n => .number n
  | .string s => .string s
  | .array items => .array (draftItems items) true
  | .object fields => .object (draftFields fields) true

def draftItems : List Json → List Draft
  | [] => []
  | v :: vs => draft v :: draftItems vs

def draftFields : List (String × Json) → List (String × Draft)
  | [] => []
  | (k, v) :: fs => (k, draft v) :: draftFields fs

end

namespace Draft

mutual

/-- The value of a draft in which nothing is cut; a repeated key keeps its first place and takes its
last value. -/
def value? : Draft → Option Json
  | .null => some .null
  | .bool b => some (.bool b)
  | .number n => some (.number n)
  | .string s => some (.string s)
  | .array items closed =>
    match valueItems? items with
    | some vs => if closed then some (.array vs) else none
    | none => none
  | .object fields closed =>
    match valueFields? fields [] with
    | some fs => if closed then some (.object fs) else none
    | none => none
  | .cut => none

def valueItems? : List Draft → Option (List Json)
  | [] => some []
  | d :: ds =>
    match value? d, valueItems? ds with
    | some v, some vs => some (v :: vs)
    | _, _ => none

/-- Inserts the fields into those read before, if none is cut. -/
def valueFields? : List (String × Draft) → List (String × Json) → Option (List (String × Json))
  | [], fs => some fs
  | (k, d) :: ds, fs =>
    match value? d with
    | some v => valueFields? ds (Entries.insert k v fs)
    | none => none

end

end Draft

end StepGraph.Json
