import StepGraph.Yaml.Cursor

/-!
# Gaps between words

A scalar without a block header may run over several lines.  The blanks between two of its words
stay as they are if they lie in one line; around the end of a line they vanish, one such end becomes
a space, and of several all but the first stay.
-/

namespace StepGraph.Yaml

/-- What lies between two words of a scalar. -/
structure Fold where
  /-- The blanks, if the words are on one line. -/
  spaces : List Char := []
  /-- The ends of lines. -/
  breaks : List Char := []
  /-- Do the words stand on different lines? -/
  broken : Bool := false
  /-- Has the first end of a line been escaped? -/
  escaped : Bool := false

namespace Fold

/-- What a fold contributes to the text of its scalar. -/
def text (f : Fold) : List Char :=
  if !f.broken then f.spaces
  else if f.escaped then f.breaks
  else
    match f.breaks with
    | ['\n'] => [' ']
    | '\n' :: breaks => breaks
    | breaks => breaks

/-- Reads on in a fold up to the next word.  A tab may not stand in front of the column `indent` of
a new line. -/
def readOn (indent : Nat) : Nat → Fold → Cursor → Option (Fold × Cursor)
  | 0, _, _ => none
  | fuel + 1, f, c =>
    match c.lineBreak? with
    | some (x, c) =>
      readOn indent fuel { f with spaces := [], breaks := f.breaks ++ [x], broken := true } c
    | none =>
      match c.peek? with
      | some x =>
        if !isSpacing x then some (f, c)
        else if !f.broken then readOn indent fuel { f with spaces := f.spaces ++ [x] } (c.advance 1)
        else if x == '\t' && c.column < indent then none
        else readOn indent fuel f (c.advance 1)
      | none => some (f, c)

/-- Reads the rest of a fold that has begun as `f`. -/
def read (indent : Nat) (f : Fold) (c : Cursor) : Option (Fold × Cursor) :=
  readOn indent (c.rest.length + 1) f c

end Fold

end StepGraph.Yaml
