import StepGraph.Json.Basic
import StepGraph.Yaml.Grammar
import StepGraph.Yaml.Layout
import StepGraph.Yaml.Plain

/-!
# Reading YAML

The JSON value of a document.  A scalar without quotes stands for what `Plain` says, others stand
for their text; a standard tag can ask for something else.  Keys are texts: that of their scalar,
whatever it stands for.  A document with another kind of key, with a tag of its own, with a whole
number beyond 64 bits, nested too deeply or with too many aliases has no value.
-/

namespace StepGraph.Yaml

/-- The deepest nesting of collections. -/
def maxDepth : Nat := 128

/-- Reading values: the state is the number of aliases that may still be followed. -/
abbrev Reading := StateT Nat Option

namespace Reading

/-- The start of the standard tags. -/
def standard (name : String) : String := "tag:yaml.org,2002:" ++ name

/-- Is the tag one of those that only the author of the document knows? -/
def isPrivate (tag : String) : Bool := tag.toList.head? == some '!'

/-- Do the octets that the characters of a tag stand for make up a text? -/
def isText (tag : String) : Bool :=
  (String.fromUTF8? ⟨(tag.toList.map fun c => UInt8.ofNat c.toNat).toArray⟩).isSome

/-- The tag of a node, unless it is a private one that is no text: such a tag says nothing. -/
def heeded (tag : Option String) : Option String :=
  tag.filter fun tag => !isPrivate tag || isText tag

def integer? (n : Int) : Option Json :=
  if (Decimal.fitInt64? n).isSome || (Decimal.fitUInt64? n).isSome then some (.ofInt n) else none

def scalar? (tag : Option String) (bare : Bool) (text : String) : Option Json :=
  match heeded tag with
  | some tag =>
    if isPrivate tag then none
    else if tag = standard "bool" then (Plain.readBool? text).map .bool
    else if tag = standard "int" then (Plain.readInteger? text.toList).bind integer?
    else if tag = standard "float" then (Plain.readFloat? text.toList).map .ofFloat
    else if tag = standard "null" then if Plain.isNull text then some .null else none
    else some (.string text)
  | none =>
    if bare then
      match Plain.ofText text with
      | .null => some .null
      | .bool b => some (.bool b)
      | .integer n => integer? n
      | .float x => some (.ofFloat x)
      | .text => some (.string text)
    else some (.string text)

/-- The node that is meant: for an alias the last of the `named` nodes with its number. -/
def follow (named : List (Nat × Node Nat)) : Node Nat → Reading (Node Nat)
  | .alias id => do
    let left ← get
    if left = 0 then failure
    set (left - 1)
    named.reverse.lookup id
  | n => pure n

def key (named : List (Nat × Node Nat)) (n : Node Nat) : Reading String := do
  match ← follow named n with
  | .scalar _ _ _ text => return text
  | _ => failure

/-- The value of a node, in which collections may be nested `depth` deep. -/
def value (named : List (Nat × Node Nat)) : Nat → Node Nat → Reading Json
  | 0, n => do
    match ← follow named n with
    | .scalar _ tag bare text => scalar? tag bare text
    | _ => failure
  | depth + 1, n => do
    match ← follow named n with
    | .scalar _ tag bare text => scalar? tag bare text
    | .sequence _ tag items =>
      if (heeded tag).any isPrivate then failure
      return .array (← items.mapM (value named depth))
    | .mapping _ tag pairs =>
      if (heeded tag).any isPrivate then failure
      let fields ← pairs.mapM fun p => do
        let k ← key named p.1
        let v ← value named depth p.2
        pure (k, v)
      return .object (OrderedMap.ofList fields).entries
    | .alias _ => failure

end Reading

def read? (text : String) : Option Json := do
  let ts ← Token.ofText? text.toList
  let n ← Node.ofTokens? ts
  let (n, _) ← n.number []
  let (v, _) ← (Reading.value n.named maxDepth n).run (100 * n.size)
  return v

end StepGraph.Yaml
