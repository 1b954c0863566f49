import StepGraph.Yaml.Scalar.Bare
import StepGraph.Yaml.Scalar.Block
import StepGraph.Yaml.Scalar.Quoted
import StepGraph.Yaml.Token

/-!
# Laying a document out in tokens

Block collections are told by their indentation, and a key by the colon behind it.  So the tokens
are found in one pass that keeps the indentation of the open collections and, for every open flow
collection and for the block around them, the last place where a key may have started.  When the
colon comes, the tokens for the key are put in at that place.
-/

namespace StepGraph.Yaml

/-- A place where a key may have started. -/
structure Candidate where
  /-- Is it the only thing that can stand at its indentation? -/
  required : Bool
  /-- The number of tokens before it. -/
  position : Nat
  start : Cursor

/-- A document as far as it has been laid out. -/
structure Layout where
  cursor : Cursor
  /-- The tokens so far, last first. -/
  tokens : List Token := []
  /-- The columns of the open block collections, innermost first. -/
  indents : List Nat := []
  /-- The candidate of the block. -/
  blockCandidate : Option Candidate := none
  /-- The candidates of the open flow collections, innermost first. -/
  flowCandidates : List (Option Candidate) := []
  /-- May a key start here? -/
  keyAllowed : Bool := true

namespace Layout

def inFlow (l : Layout) : Bool := !l.flowCandidates.isEmpty

def candidate (l : Layout) : Option Candidate :=
  match l.flowCandidates with
  | k :: _ => k
  | [] => l.blockCandidate

/-- Puts a candidate in place of that of the innermost collection. -/
def setCandidate (l : Layout) (k : Option Candidate) : Layout :=
  match l.flowCandidates with
  | _ :: ks => { l with flowCandidates := k :: ks }
  | [] => { l with blockCandidate := k }

def push (l : Layout) (t : Token) : Layout := { l with tokens := t :: l.tokens }

/-- Puts a token in with `position` tokens before it. -/
def insertAt (l : Layout) (position : Nat) (t : Token) : Layout :=
  { l with tokens := l.tokens.insertIdx (l.tokens.length - position) t }

/-- The least column of what is inside the innermost block collection. -/
def contentColumn (l : Layout) : Nat :=
  match l.indents with
  | n :: _ => n + 1
  | [] => 0

/-- Opens a block collection at a column if it is further in than those that are open; `t` starts it
and has `position` tokens before it. -/
def openBlock (l : Layout) (column position : Nat) (t : Token) : Layout :=
  if l.inFlow || column < l.contentColumn then l
  else { l.insertAt position t with indents := column :: l.indents }

/-- Closes the block collections that stand further in than a column; all of them without one. -/
def closeBlocks (l : Layout) (column : Option Nat) : Layout :=
  if l.inFlow then l
  else
    let inner := l.indents.takeWhile fun n => match column with
      | some m => m < n
      | none => true
    { l with
      tokens := inner.map (fun _ => Token.blockEnd) ++ l.tokens
      indents := l.indents.drop inner.length }

/-- Gives up the candidate of the innermost collection, which must not be a required one. -/
def dropCandidate (l : Layout) : Option Layout :=
  match l.candidate with
  | some k => if k.required then none else some (l.setCandidate none)
  | none => some l

/-- Notes that a key may start here. -/
def saveCandidate (l : Layout) : Option Layout :=
  if l.keyAllowed then do
    let required := !l.inFlow && l.indents.head? == some l.cursor.column
    let l ← l.dropCandidate
    return l.setCandidate (some ⟨required, l.tokens.length, l.cursor⟩)
  else some l

/-- Is the cursor too far from a candidate for it to be a key?  A key ends on its line and within
1024 characters. -/
def isStale (c : Cursor) (k : Candidate) : Bool :=
  k.start.line < c.line || k.start.index + 1024 < c.index

/-- Gives up the candidates that are too far away, none of which may be required. -/
def dropStale (l : Layout) : Option Layout := do
  let check (k : Option Candidate) : Option (Option Candidate) :=
    match k with
    | some k =>
      if !isStale l.cursor k then some (some k)
      else if k.required then none
      else some none
    | none => some none
  return { l with
    blockCandidate := ← check l.blockCandidate
    flowCandidates := ← l.flowCandidates.mapM check }

/-- Goes past blanks, comments and ends of lines to the next token.  Where a key may start in a
block, a tab is no blank.  A byte order mark at the start of a line is passed over, but takes up a
column. -/
def toNextToken : Nat → Layout → Layout
  | 0, l => l
  | fuel + 1, l =>
    let c := if l.cursor.column = 0 && l.cursor.at? '\ufeff' then l.cursor.advance 1 else l.cursor
    let c := c.skip fun x => x == ' ' || ((l.inFlow || !l.keyAllowed) && x == '\t')
    let c := if c.at? '#' then c.skip fun x => !isBreak x else c
    match c.lineBreak? with
    | some (_, c) =>
      toNextToken fuel { l with cursor := c, keyAllowed := l.keyAllowed || !l.inFlow }
    | none => { l with cursor := c }

/-- Goes past the `n` characters of a token. -/
def take (l : Layout) (n : Nat) (t : Token) (keyAllowed : Bool) : Layout :=
  { l with cursor := l.cursor.advance n, tokens := t :: l.tokens, keyAllowed }

/-- Adds a token that has been read up to a cursor. -/
def accept (l : Layout) (t : Token) (c : Cursor) (keyAllowed : Bool) : Layout :=
  { l with cursor := c, tokens := t :: l.tokens, keyAllowed }

def openFlow (l : Layout) (t : Token) : Option Layout := do
  let l ← l.saveCandidate
  return { l with flowCandidates := none :: l.flowCandidates }.take 1 t true

def closeFlow (l : Layout) (t : Token) : Option Layout := do
  let l ← l.dropCandidate
  return { l with flowCandidates := l.flowCandidates.drop 1 }.take 1 t false

/-- Starts an entry of a block sequence or an announced key of a block mapping, which opens the
collection if it is the first one. -/
def openEntry (l : Layout) (start : Token) : Option Layout :=
  if l.inFlow then some l
  else if l.keyAllowed then some (l.openBlock l.cursor.column l.tokens.length start)
  else none

def blockEntry (l : Layout) : Option Layout := do
  let l ← (← l.openEntry .sequenceStart).dropCandidate
  return l.take 1 .blockEntry true

/-- Reads the announcement of a key. -/
def announcedKey (l : Layout) : Option Layout := do
  let l ← (← l.openEntry .mappingStart).dropCandidate
  return l.take 1 .key (!l.inFlow)

/-- Reads the colon before a value.  If a key may have started before, that was one. -/
def value (l : Layout) : Option Layout :=
  match l.candidate with
  | some k =>
    let l := (l.insertAt k.position .key).openBlock k.start.column k.position .mappingStart
    some ((l.setCandidate none).take 1 .value false)
  | none => do
    let l ← l.openEntry .mappingStart
    return l.take 1 .value (!l.inFlow)

/-- Reads the marker of the start or the end of a document. -/
def marker (l : Layout) : Option Layout := do
  let t := if l.cursor.at? '-' then Token.documentStart else .documentEnd
  let l ← (l.closeBlocks none).dropCandidate
  return l.take 3 t false

def directive (l : Layout) : Option Layout := do
  let l ← (l.closeBlocks none).dropCandidate
  let (t, c) ← Token.readDirective l.cursor
  return l.accept t c false

/-- Reads the name of a node or of an alias. -/
def named (l : Layout) (t : String → Token) : Option Layout := do
  let l ← l.saveCandidate
  let (name, c) ← Token.readName (l.cursor.advance 1)
  return l.accept (t name) c false

def tag (l : Layout) : Option Layout := do
  let l ← l.saveCandidate
  let (t, c) ← Token.readTag l.inFlow l.cursor
  return l.accept (.tag t) c false

def block (l : Layout) (literal : Bool) : Option Layout := do
  let l ← l.dropCandidate
  let (text, c) ← Block.read literal l.indents.head? l.cursor
  return l.accept (.scalar false (String.ofList text)) c true

/-- Reads a quoted scalar. -/
def quoted (l : Layout) (single : Bool) : Option Layout := do
  let l ← l.saveCandidate
  let (text, c) ← Quoted.read single l.cursor
  return l.accept (.scalar false (String.ofList text)) c false

/-- Reads a scalar without quotes; after the end of a line a key may start. -/
def bare (l : Layout) : Option Layout := do
  let l ← l.saveCandidate
  let b ← Bare.read l.inFlow l.contentColumn l.cursor
  return l.accept (.scalar true (String.ofList b.text)) b.after b.broken

/-- May a scalar without quotes start with `x` before `next`? -/
def startsBare (flow : Bool) (x : Char) (next : Option Char) : Bool :=
  !(isGap (some x) || "-?:,[]\x7b\x7d#&*!|>'\"%@`".toList.contains x) ||
    (x == '-' && !isGap next) || (!flow && (x == '?' || x == ':') && !isGap next)

/-- Reads a token whose first character is `x`. -/
def token (l : Layout) (x : Char) : Option Layout :=
  let next := l.cursor.second?
  if l.cursor.column == 0 && x == '%' then l.directive
  else if l.cursor.atMarker then l.marker
  else if x == '[' then l.openFlow .flowSequenceStart
  else if x == '\x7b' then l.openFlow .flowMappingStart
  else if x == ']' then l.closeFlow .flowSequenceEnd
  else if x == '\x7d' then l.closeFlow .flowMappingEnd
  else if x == ',' then l.dropCandidate.map fun l => l.take 1 .flowEntry true
  else if x == '-' && isGap next then l.blockEntry
  else if x == '?' && (l.inFlow || isGap next) then l.announcedKey
  else if x == ':' && (l.inFlow || isGap next) then l.value
  else if x == '*' then l.named .alias
  else if x == '&' then l.named .anchor
  else if x == '!' then l.tag
  else if x == '|' && !l.inFlow then l.block true
  else if x == '>' && !l.inFlow then l.block false
  else if x == '\'' then l.quoted true
  else if x == '"' then l.quoted false
  else if startsBare l.inFlow x next then l.bare
  else none

/-- Reads tokens up to the end of the document. -/
def toEnd : Nat → Layout → Option Layout
  | 0, _ => none
  | fuel + 1, l => do
    let l ← (toNextToken (l.cursor.rest.length + 1) l).dropStale
    match l.cursor.peek? with
    | some x => toEnd fuel (← (l.closeBlocks (some l.cursor.column)).token x)
    | none => (l.closeBlocks none).dropCandidate

end Layout

def Token.ofText? (cs : List Char) : Option (List Token) :=
  if cs.all isReadable then
    (Layout.toEnd (cs.length + 1) { cursor := ⟨cs, 0, 0, 0⟩ }).map fun l => l.tokens.reverse
  else none

end StepGraph.Yaml
