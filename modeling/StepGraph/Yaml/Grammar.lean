import StepGraph.Yaml.Node
import StepGraph.Yaml.Token

/-!
# The grammar of documents

How tokens make up the tree of a document.  A node that is not written where one is expected is the
empty scalar.  Every function takes the tokens that are left and returns those behind what it has
read; `fuel` bounds the nesting of calls and is never used up by a reader that starts with
`Grammar.fuel`.
-/

namespace StepGraph.Yaml

namespace Grammar

/-- The meanings of the tag handles. -/
abbrev Handles := List (String × String)

/-- The handles that need no directive. -/
def standardHandles : Handles := [("!", "!"), ("!!", "tag:yaml.org,2002:")]

/-- The tag that is meant by a written one. -/
def meaning? (handles : Handles) (t : WrittenTag) : Option String :=
  if t.handle.isEmpty then some t.suffix
  else (handles.lookup t.handle).map fun start => start ++ t.suffix

/-- Reads the name and the tag of a node, in either order. -/
def properties (handles : Handles) (ts : List Token) :
    Option (Option String × Option String × List Token) :=
  match ts with
  | .anchor name :: .tag t :: ts => (meaning? handles t).map fun tag => (some name, some tag, ts)
  | .tag t :: .anchor name :: ts => (meaning? handles t).map fun tag => (some name, some tag, ts)
  | .anchor name :: ts => some (some name, none, ts)
  | .tag t :: ts => (meaning? handles t).map fun tag => (none, some tag, ts)
  | ts => some (none, none, ts)

/-- Where a node stands. -/
inductive Place
  | flow
  | block
  /-- In a block mapping, where a sequence needs no further indentation. -/
  | mapped
deriving DecidableEq

/-- May the next token start no node in a block sequence? -/
def endsBlockItem : List Token → Bool
  | .blockEntry :: _ | .blockEnd :: _ => true
  | _ => false

/-- May the next token start no node in a sequence without indentation? -/
def endsPlainItem : List Token → Bool
  | .blockEntry :: _ | .key :: _ | .value :: _ | .blockEnd :: _ => true
  | _ => false

def endsBlockField : List Token → Bool
  | .key :: _ | .value :: _ | .blockEnd :: _ => true
  | _ => false

def endsPairValue : List Token → Bool
  | .flowEntry :: _ | .flowSequenceEnd :: _ => true
  | _ => false

def endsFlowKey : List Token → Bool
  | .value :: _ | .flowEntry :: _ | .flowMappingEnd :: _ => true
  | _ => false

def endsFlowValue : List Token → Bool
  | .flowEntry :: _ | .flowMappingEnd :: _ => true
  | _ => false

mutual

/-- Reads a node. -/
def node (hs : Handles) (place : Place) :
    Nat → List Token → Option (Node String × List Token)
  | 0, _ => none
  | fuel + 1, ts =>
    match ts with
    | .alias name :: ts => some (.alias name, ts)
    | ts => do
      let (name, tag, ts) ← properties hs ts
      match ts with
      | .scalar bare text :: ts =>
        return (.scalar name tag bare text, ts)
      | .flowSequenceStart :: ts =>
        let (items, ts) ← flowItems hs true fuel ts
        return (.sequence name tag items, ts)
      | .flowMappingStart :: ts =>
        let (pairs, ts) ← flowFields hs true fuel ts
        return (.mapping name tag pairs, ts)
      | ts =>
        match place, ts with
        | .mapped, .blockEntry :: _ =>
          let (items, ts) ← plainItems hs fuel ts
          return (.sequence name tag items, ts)
        | .block, .sequenceStart :: ts | .mapped, .sequenceStart :: ts =>
          let (items, ts) ← blockItems hs fuel ts
          return (.sequence name tag items, ts)
        | .block, .mappingStart :: ts | .mapped, .mappingStart :: ts =>
          let (pairs, ts) ← blockFields hs fuel ts
          return (.mapping name tag pairs, ts)
        | _, ts =>
          if name.isSome || tag.isSome then return (.scalar name tag true "", ts) else none

/-- Reads a node, or the empty one where none can be. -/
def nodeUnless (hs : Handles) (place : Place) (ends : List Token → Bool) :
    Nat → List Token → Option (Node String × List Token)
  | 0, _ => none
  | fuel + 1, ts => if ends ts then some (.empty, ts) else node hs place fuel ts

def blockItems (hs : Handles) : Nat → List Token → Option (List (Node String) × List Token)
  | 0, _ => none
  | fuel + 1, ts =>
    match ts with
    | .blockEntry :: ts => do
      let (n, ts) ← nodeUnless hs .block endsBlockItem fuel ts
      let (ns, ts) ← blockItems hs fuel ts
      return (n :: ns, ts)
    | .blockEnd :: ts => some ([], ts)
    | _ => none

def plainItems (hs : Handles) : Nat → List Token → Option (List (Node String) × List Token)
  | 0, _ => none
  | fuel + 1, ts =>
    match ts with
    | .blockEntry :: ts => do
      let (n, ts) ← nodeUnless hs .block endsPlainItem fuel ts
      let (ns, ts) ← plainItems hs fuel ts
      return (n :: ns, ts)
    | ts => some ([], ts)

def blockFields (hs : Handles) :
    Nat → List Token → Option (List (Node String × Node String) × List Token)
  | 0, _ => none
  | fuel + 1, ts =>
    match ts with
    | .key :: ts => do
      let (k, ts) ← nodeUnless hs .mapped endsBlockField fuel ts
      let (v, ts) ←
        match ts with
        | .value :: ts => nodeUnless hs .mapped endsBlockField fuel ts
        | ts => some (.empty, ts)
      let (ps, ts) ← blockFields hs fuel ts
      return ((k, v) :: ps, ts)
    | .blockEnd :: ts => some ([], ts)
    | _ => none

/-- Reads the items of a flow sequence and its end.  A comma parts two items and may follow the last
one. -/
def flowItems (hs : Handles) (first : Bool) :
    Nat → List Token → Option (List (Node String) × List Token)
  | 0, _ => none
  | fuel + 1, ts =>
    match ts with
    | .flowSequenceEnd :: ts => some ([], ts)
    | ts => do
      let ts ←
        match first, ts with
        | true, ts => some ts
        | false, .flowEntry :: ts => some ts
        | false, _ => none
      match ts with
      | .flowSequenceEnd :: ts => return ([], ts)
      | .key :: ts =>
        let (pair, ts) ← singlePair hs fuel ts
        let (ns, ts) ← flowItems hs false fuel ts
        return (.mapping none none [pair] :: ns, ts)
      | ts =>
        let (n, ts) ← node hs .flow fuel ts
        let (ns, ts) ← flowItems hs false fuel ts
        return (n :: ns, ts)

/-- Reads a single pair in a flow sequence, after the token for its key.  A token that stands in
place of the key is passed over. -/
def singlePair (hs : Handles) :
    Nat → List Token → Option ((Node String × Node String) × List Token)
  | 0, _ => none
  | fuel + 1, ts => do
    let (k, ts) ←
      match ts with
      | .value :: ts | .flowEntry :: ts | .flowSequenceEnd :: ts => some (.empty, ts)
      | ts => node hs .flow fuel ts
    match ts with
    | .value :: ts =>
      let (v, ts) ← nodeUnless hs .flow endsPairValue fuel ts
      return ((k, v), ts)
    | ts => return ((k, .empty), ts)

/-- Reads the pairs of a flow mapping and its end. -/
def flowFields (hs : Handles) (first : Bool) :
    Nat → List Token → Option (List (Node String × Node String) × List Token)
  | 0, _ => none
  | fuel + 1, ts =>
    match ts with
    | .flowMappingEnd :: ts => some ([], ts)
    | ts => do
      let ts ←
        match first, ts with
        | true, ts => some ts
        | false, .flowEntry :: ts => some ts
        | false, _ => none
      match ts with
      | .flowMappingEnd :: ts => return ([], ts)
      | .key :: ts =>
        let (k, ts) ← nodeUnless hs .flow endsFlowKey fuel ts
        let (v, ts) ←
          match ts with
          | .value :: ts => nodeUnless hs .flow endsFlowValue fuel ts
          | ts => some (.empty, ts)
        let (ps, ts) ← flowFields hs false fuel ts
        return ((k, v) :: ps, ts)
      | ts =>
        let (k, ts) ← node hs .flow fuel ts
        let (ps, ts) ← flowFields hs false fuel ts
        return ((k, .empty) :: ps, ts)

end

/-- The fuel for reading tokens: two nested calls at most pass on without taking one. -/
def fuel (ts : List Token) : Nat := 3 * ts.length + 3

/-- Reads the directives in front of a document: at most one for the version, which has to be 1.1 or
1.2, and one for each handle. -/
def directives : Bool → Handles → List Token → Option (Handles × List Token)
  | versioned, hs, .version major minor :: ts =>
    if versioned || major != 1 || (minor != 1 && minor != 2) then none else directives true hs ts
  | versioned, hs, .tagHandle name meaning :: ts =>
    if (hs.lookup name).isSome then none else directives versioned (hs ++ [(name, meaning)]) ts
  | _, hs, ts => some (hs, ts)

/-- Does no content follow the start of a document? -/
def endsContent : List Token → Bool
  | [] | .version _ _ :: _ | .tagHandle _ _ :: _ | .documentStart :: _ | .documentEnd :: _ => true
  | _ => false

/-- Reads the start of a document and its content. -/
def content (ts : List Token) : Option (Node String × List Token) :=
  match ts with
  | .version _ _ :: _ | .tagHandle _ _ :: _ | .documentStart :: _ =>
    match directives false [] ts with
    | some (hs, .documentStart :: ts) =>
      nodeUnless (hs ++ standardHandles) .block endsContent (fuel ts) ts
    | _ => none
  | ts => node standardHandles .block (fuel ts) ts

end Grammar

/-- The tree of the one document that tokens make up. -/
def Node.ofTokens? (ts : List Token) : Option (Node String) :=
  if ts.isEmpty then some .empty
  else
    match Grammar.content ts with
    | some (n, ts) => if ts.all (· == .documentEnd) then some n else none
    | none => none

end StepGraph.Yaml
