import StepGraph.Decimal.Numeral
import StepGraph.Yaml.Scalar.Fold

/-!
# Quoted scalars

In single quotes only the quote itself is escaped, by writing it twice.  In double quotes a
backslash starts an escape; before the end of a line it joins the lines without a space.
-/

namespace StepGraph.Yaml.Quoted

/-- The digits of a character's number. -/
def codePoint? (width : Nat) (cs : List Char) : Option (Char × Nat) := do
  let digits := cs.take width
  if digits.length < width then none
  let n ← Decimal.natural? 16 digits
  if n < 0xD800 || (0xE000 ≤ n && n ≤ 0x10FFFF) then some (Char.ofNat n, width + 1) else none

/-- The character that an escape stands for, and the length of what follows the backslash. -/
def escape? : List Char → Option (Char × Nat)
  | [] => none
  | c :: cs =>
    if c == 'x' then codePoint? 2 cs
    else if c == 'u' then codePoint? 4 cs
    else if c == 'U' then codePoint? 8 cs
    else
      let short? : Option Char :=
        if c == '0' then some '\x00'
        else if c == 'a' then some '\x07'
        else if c == 'b' then some '\x08'
        else if c == 't' || c == '\t' then some '\t'
        else if c == 'n' then some '\n'
        else if c == 'v' then some '\x0b'
        else if c == 'f' then some '\x0c'
        else if c == 'r' then some '\r'
        else if c == 'e' then some '\x1b'
        else if c == 'N' then some '\x85'
        else if c == '_' then some '\xa0'
        else if c == 'L' then some '\u2028'
        else if c == 'P' then some '\u2029'
        else if c == ' ' || c == '"' || c == '/' || c == '\\' then some c
        else none
      short?.map fun x => (x, 1)

/-- The word in front, and whether an escaped end of a line follows it. -/
def word (single : Bool) : Nat → List Char → Cursor → Option (List Char × Bool × Cursor)
  | 0, _, _ => none
  | fuel + 1, text, c =>
    match c.rest with
    | [] => some (text.reverse, false, c)
    | x :: cs =>
      if isGap (some x) then some (text.reverse, false, c)
      else if single then
        if x != '\'' then word single fuel (x :: text) (c.advance 1)
        else if cs.head? == some '\'' then word single fuel ('\'' :: text) (c.advance 2)
        else some (text.reverse, false, c)
      else if x == '"' then some (text.reverse, false, c)
      else if x != '\\' then word single fuel (x :: text) (c.advance 1)
      else
        match (c.advance 1).lineBreak? with
        | some (_, c) => some (text.reverse, true, c)
        | none => do
          let (y, length) ← escape? cs
          word single fuel (y :: text) (c.advance (length + 1))

/-- Reads on after `text`, up to the closing quote. -/
def readOn (single : Bool) : Nat → List Char → Cursor → Option (List Char × Cursor)
  | 0, _, _ => none
  | fuel + 1, text, c =>
    if c.atMarker || c.rest.isEmpty then none
    else do
      let (w, escaped, c) ← word single (c.rest.length + 1) [] c
      let text := text ++ w
      if c.at? (if single then '\'' else '"') then return (text, c.advance 1)
      let (f, c) ← Fold.read 0 { broken := escaped, escaped } c
      readOn single fuel (text ++ f.text) c

/-- Reads a quoted scalar; the cursor is at its first quote. -/
def read (single : Bool) (c : Cursor) : Option (List Char × Cursor) :=
  readOn single (c.rest.length + 1) [] (c.advance 1)

end StepGraph.Yaml.Quoted
