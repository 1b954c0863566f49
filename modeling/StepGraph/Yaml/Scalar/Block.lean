import StepGraph.Decimal.Numeral
import StepGraph.Yaml.Cursor

/-!
# Block scalars

A bar or an angle bracket starts a scalar that consists of the following lines, as far as they are
indented.  After a bar lines stay lines; after an angle bracket a single end of a line between two
lines that start with no blank becomes a space.  The header may say how far the lines are indented
and what becomes of the ends of lines behind the last one.
-/

namespace StepGraph.Yaml.Block

/-- What becomes of the ends of lines behind the text. -/
inductive Chomping
  /-- All vanish. -/
  | strip
  /-- One stays. -/
  | clip
  /-- All stay. -/
  | keep
deriving DecidableEq

/-- The chomping that a sign asks for. -/
def chomping? (c : Option Char) : Option Chomping :=
  if c = some '+' then some .keep
  else if c = some '-' then some .strip
  else none

/-- The header after the bar or angle bracket: a sign and a digit in either order, both optional. -/
def header (c : Cursor) : Option (Chomping × Option Nat × Cursor) :=
  let digit? (c : Cursor) : Option (Nat × Cursor) :=
    match c.peek? with
    | some x => if Decimal.isDigit x then some (Decimal.digit x, c.advance 1) else none
    | none => none
  match chomping? c.peek? with
  | some chomping =>
    match digit? (c.advance 1) with
    | some (n, c) => if n = 0 then none else some (chomping, some n, c)
    | none => some (chomping, none, c.advance 1)
  | none =>
    match digit? c with
    | some (n, c) =>
      if n = 0 then none
      else
        match chomping? c.peek? with
        | some chomping => some (chomping, some n, c.advance 1)
        | none => some (.clip, some n, c)
    | none => some (.clip, none, c)

/-- Goes past blank lines to the first character of a line with text.  Gives the ends of the blank
lines and the widest indentation met on the way.  Without an indentation all spaces are passed;
otherwise those in front of it, where a tab may not stand. -/
def blankLines (indent : Option Nat) :
    Nat → List Char → Nat → Cursor → Option (List Char × Nat × Cursor)
  | 0, _, _, _ => none
  | fuel + 1, breaks, widest, c =>
    let inside (column : Nat) : Bool := match indent with
      | some n => column < n
      | none => true
    let spaces := (c.run (· == ' ')).length
    let c := c.advance (match indent with
      | some n => min spaces (n - c.column)
      | none => spaces)
    let widest := max widest c.column
    if inside c.column && c.at? '\t' then none
    else
      match c.lineBreak? with
      | some (x, c) => blankLines indent fuel (breaks ++ [x]) widest c
      | none => some (breaks, widest, c)

/-- What is known of a block scalar before its next line. -/
structure Progress where
  text : List Char := []
  /-- The end of the last line. -/
  ending : List Char := []
  /-- The ends of the blank lines after it. -/
  blanks : List Char := []
  /-- Does the last line start with a blank? -/
  indented : Bool := false

/-- What stands between the text so far and a further line. -/
def Progress.join (literal indented : Bool) (p : Progress) : List Char :=
  if !literal && p.ending == ['\n'] && !p.indented && !indented then
    (if p.blanks.isEmpty then [' '] else []) ++ p.blanks
  else p.ending ++ p.blanks

/-- Reads the lines that start at the column `indent`. -/
def lines (literal : Bool) (indent : Nat) : Nat → Progress → Cursor → Option (Progress × Cursor)
  | 0, _, _ => none
  | fuel + 1, p, c =>
    if c.column != indent || c.rest.isEmpty then some (p, c)
    else do
      let indented := match c.peek? with
        | some x => isSpacing x
        | none => false
      let line := c.run fun x => !isBreak x
      let text := p.text ++ p.join literal indented ++ line
      let c := c.advance line.length
      let (ending, c) := match c.lineBreak? with
        | some (x, c) => ([x], c)
        | none => ([], c)
      let (blanks, _, c) ← blankLines (some indent) (c.rest.length + 1) [] 0 c
      lines literal indent fuel ⟨text, ending, blanks, indented⟩ c

/-- Reads a block scalar in a collection whose parts are indented by `outer`; the cursor is at the
bar or angle bracket. -/
def read (literal : Bool) (outer : Option Nat) (c : Cursor) : Option (List Char × Cursor) := do
  let (chomping, increment, c) ← header (c.advance 1)
  let c := c.skipComment
  if !c.endsLine then none
  let c := match c.lineBreak? with
    | some (_, c) => c
    | none => c
  let given := increment.map fun n => outer.getD 0 + n
  let (blanks, widest, c) ← blankLines given (c.rest.length + 1) [] 0 c
  let least := match outer with
    | some n => n + 1
    | none => 0
  let indent := given.getD (max widest (max least 1))
  let (p, c) ← lines literal indent (c.rest.length + 1) { blanks } c
  let tail := match chomping with
    | .strip => []
    | .clip => p.ending
    | .keep => p.ending ++ p.blanks
  return (p.text ++ tail, c)

end StepGraph.Yaml.Block
