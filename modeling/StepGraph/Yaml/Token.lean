import StepGraph.Decimal.Numeral
import StepGraph.Yaml.Cursor

/-!
# Tokens

The parts a document consists of.  Nesting that is shown by indentation has tokens of its own:
`sequenceStart`, `mappingStart` and `blockEnd`.  Here are also the readers of those tokens that do
not depend on what came before: names of nodes, tags and directives.
-/

namespace StepGraph.Yaml

/-- A tag as it is written: a handle that stands for a text in front of the suffix, or no handle. -/
structure WrittenTag where
  handle : String
  suffix : String
deriving DecidableEq

inductive Token
  /-- The directive for the version of the language. -/
  | version (major minor : Nat)
  /-- The directive that gives a tag handle its meaning. -/
  | tagHandle (name meaning : String)
  | documentStart
  | documentEnd
  | sequenceStart
  | mappingStart
  | blockEnd
  | flowSequenceStart
  | flowSequenceEnd
  | flowMappingStart
  | flowMappingEnd
  | blockEntry
  | flowEntry
  | key
  | value
  | alias (name : String)
  | anchor (name : String)
  | tag (t : WrittenTag)
  /-- A text; `bare` says that it has neither quotes nor a block header. -/
  | scalar (bare : Bool) (text : String)
deriving DecidableEq

namespace Token

/-- May the name of a node end before this character? -/
def endsName (c : Option Char) : Bool :=
  isGap c ||
    match c with
    | some x => "?:,]\x7d%@`".toList.contains x
    | none => true

def readName (c : Cursor) : Option (String × Cursor) :=
  let name := c.run isNameChar
  let after := c.advance name.length
  if name.isEmpty || !endsName after.peek? then none else some (String.ofList name, after)

/-- May the character stand in a tag?  More may stand in one that is given in full. -/
def isTagChar (full : Bool) (c : Char) : Bool :=
  isNameChar c || ";/?:@&=+$.!~*'()".toList.contains c ||
    (full && (c == ',' || c == '[' || c == ']'))

/-- The octets behind the first one in the escaped form of a character. -/
def furtherOctets? (first : Nat) : Option Nat :=
  if first < 0x80 then some 0
  else if first / 0x20 = 0x6 then some 1
  else if first / 0x10 = 0xE then some 2
  else if first / 0x08 = 0x1E then some 3
  else none

/-- Reads the rest of a tag.  A percent sign escapes an octet, which stands for itself here; the
octets of one character have to come together.  `further` octets of one are still to come. -/
def readTagOn (full : Bool) : Nat → List Char → Cursor → Option (List Char × Cursor)
  | further, text, ⟨rest, index, line, column⟩ =>
    match rest with
    | '%' :: a :: b :: cs =>
      match Decimal.natural? 16 [a, b] with
      | none => none
      | some n =>
        let after : Cursor := ⟨cs, index + 3, line, column + 3⟩
        match further with
        | 0 =>
          match furtherOctets? n with
          | some k => readTagOn full k (Char.ofNat n :: text) after
          | none => none
        | k + 1 =>
          if n / 0x40 = 2 then readTagOn full k (Char.ofNat n :: text) after else none
    | x :: cs =>
      if further ≠ 0 || x == '%' then none
      else if isTagChar full x then
        readTagOn full 0 (x :: text) ⟨cs, index + 1, line, column + 1⟩
      else some (text.reverse, ⟨rest, index, line, column⟩)
    | [] => if further ≠ 0 then none else some (text.reverse, ⟨rest, index, line, column⟩)
termination_by _ _ c => c.rest.length

/-- Reads a tag or the rest of one.  It must not be empty where `required` says so; what follows an
octet of zero does not belong to it. -/
def readTagText (full required : Bool) (c : Cursor) : Option (String × Cursor) :=
  match readTagOn full 0 [] c with
  | some (text, c) =>
    if required && text.isEmpty then none
    else some (String.ofList (text.takeWhile (·.toNat != 0)), c)
  | none => none

/-- Reads what may be a tag handle: an exclamation mark, a name and perhaps another mark. -/
def readHandle (c : Cursor) : List Char × Cursor :=
  let after := c.advance 1
  let name := after.run isNameChar
  let after := after.advance name.length
  if after.at? '!' then ('!' :: name ++ ['!'], after.advance 1) else ('!' :: name, after)

/-- Is the text a handle with a mark at either end? -/
def isHandle (cs : List Char) : Bool := 2 ≤ cs.length && cs.getLast? == some '!'

/-- Reads a tag; the cursor is at its first exclamation mark. -/
def readTag (flow : Bool) (c : Cursor) : Option (WrittenTag × Cursor) := do
  let (t, c) ←
    if c.second? == some '<' then do
      let (text, c) ← readTagText true true (c.advance 2)
      if !c.at? '>' then none
      pure ((⟨"", text⟩ : WrittenTag), c.advance 1)
    else do
      let (handle, c) := readHandle c
      let (text, c) ← readTagText false (isHandle handle) c
      if isHandle handle then
        pure (⟨String.ofList handle, text⟩, c)
      else
        let suffix := String.ofList (handle.drop 1) ++ text
        pure (if suffix.isEmpty then ⟨"", "!"⟩ else ⟨"!", suffix⟩, c)
  if isGap c.peek? || (flow && c.at? ',') then return (t, c) else none

/-- Reads a number of at most nine digits. -/
def readVersionNumber (c : Cursor) : Option (Nat × Cursor) :=
  let digits := c.run Decimal.isDigit
  if digits.length ≤ 9 then
    (Decimal.natural? 10 digits).map fun n => (n, c.advance digits.length)
  else none

/-- Reads a directive up to the end of its line; the cursor is at the percent sign. -/
def readDirective (c : Cursor) : Option (Token × Cursor) := do
  let c := c.advance 1
  let name := c.run isNameChar
  let c := c.advance name.length
  if !isGap c.peek? then none
  let arguments := c.skip isSpacing
  let (t, c) ←
    if name == "YAML".toList then do
      let (major, c) ← readVersionNumber arguments
      if !c.at? '.' then none
      let (minor, c) ← readVersionNumber (c.advance 1)
      pure (Token.version major minor, c)
    else if name == "TAG".toList then do
      if !arguments.at? '!' then none
      let (name, c) := readHandle arguments
      if name.length ≠ 1 && !isHandle name then none
      let spaced := c.skip isSpacing
      if spaced.index = c.index then none
      let (meaning, c) ← readTagText true true spaced
      if !isGap c.peek? then none
      pure (Token.tagHandle (String.ofList name) meaning, c)
    else none
  let c := c.skipComment
  if !c.endsLine then none
  return (t, match c.lineBreak? with
    | some (_, c) => c
    | none => c)

end Token

end StepGraph.Yaml
