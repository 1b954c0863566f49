import StepGraph.Yaml.Character

/-!
# Places in a document

A `Cursor` is what is left of a document together with the place where it starts: how many
characters came before, on which line, in which column.  Indentation is measured in columns.
-/

namespace StepGraph.Yaml

/-- What is left of a document, and the place where it starts. -/
structure Cursor where
  rest : List Char
  index : Nat := 0
  line : Nat := 0
  column : Nat := 0

namespace Cursor

def peek? (c : Cursor) : Option Char := c.rest.head?

/-- The character after the next one. -/
def second? (c : Cursor) : Option Char := (c.rest.drop 1).head?

def at? (c : Cursor) (x : Char) : Bool := c.peek? == some x

/-- Goes past `n` characters of the line. -/
def advance (c : Cursor) (n : Nat) : Cursor :=
  { c with rest := c.rest.drop n, index := c.index + n, column := c.column + n }

/-- The characters in front that have a property. -/
def run (c : Cursor) (p : Char → Bool) : List Char := c.rest.takeWhile p

/-- Goes past the characters in front that have a property; none of them ends a line. -/
def skip (c : Cursor) (p : Char → Bool) : Cursor := c.advance (c.run p).length

/-- Goes past the end of the line.  Those ends that differ between systems all count as `\n`. -/
def lineBreak? (c : Cursor) : Option (Char × Cursor) :=
  let nextLine (n : Nat) : Cursor := ⟨c.rest.drop n, c.index + n, c.line + 1, 0⟩
  match c.rest with
  | '\r' :: '\n' :: _ => some ('\n', nextLine 2)
  | x :: _ =>
    if x == '\n' || x == '\r' || x == '\x85' then some ('\n', nextLine 1)
    else if isBreak x then some (x, nextLine 1)
    else none
  | [] => none

/-- Is the cursor at the end of a line or of the document? -/
def endsLine (c : Cursor) : Bool :=
  match c.peek? with
  | none => true
  | some x => isBreak x

/-- Goes past blanks and past a comment, to the end of the line if there is a comment. -/
def skipComment (c : Cursor) : Cursor :=
  let c := c.skip isSpacing
  if c.at? '#' then c.skip fun x => !isBreak x else c

/-- Does a line start here with the marker of the start or the end of a document? -/
def atMarker (c : Cursor) : Bool :=
  c.column == 0 &&
    match c.rest with
    | '-' :: '-' :: '-' :: cs => isGap cs.head?
    | '.' :: '.' :: '.' :: cs => isGap cs.head?
    | _ => false

end Cursor

end StepGraph.Yaml
