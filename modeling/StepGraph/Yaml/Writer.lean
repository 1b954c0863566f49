import StepGraph.Json.Writer
import StepGraph.Yaml.Character
import StepGraph.Yaml.Plain

/-!
# Writing YAML

A value is written as one document in block style: an object as `key: value` lines, a list as `-
item` lines, which stand no further in than the key of the list.  A text is written plainly where it
reads back as itself, else in single quotes, and in double quotes if it has characters that need
escapes; a text of several lines is written as a literal block.  Lines are never folded.  A key of
more than 128 bytes or of several lines is announced by `?`.
-/

namespace StepGraph.Yaml

/-- The ways to write a text. -/
inductive Style
  | plain
  | singleQuoted
  | doubleQuoted
  | literal
deriving DecidableEq

/-- What decides how a text can be written. -/
structure Features where
  /-- Something in it would be read as punctuation. -/
  indicators : Bool := false
  /-- It has a line break. -/
  breaks : Bool := false
  /-- It has a character that needs an escape. -/
  special : Bool := false
  leadingSpace : Bool := false
  leadingBreak : Bool := false
  trailingSpace : Bool := false
  trailingBreak : Bool := false
  breakSpace : Bool := false
  spaceBreak : Bool := false

namespace Features

/-- Would the first character, before `next`, be read as punctuation? -/
def startsIndicator (c : Char) (next : Option Char) : Bool :=
  "#,[]\x7b\x7d&*!|>'\"%@`".toList.contains c ||
    ((c == '?' || c == ':' || c == '-') && isGap next)

/-- Would a later character, between `previous` and `next`, be read as punctuation? -/
def isIndicator (previous : Option Char) (c : Char) (next : Option Char) : Bool :=
  (c == ':' && isGap next) || (c == '#' && isGap previous)

/-- The features of what follows `previous`, which is nothing at the start of the text. -/
def scan (f : Features) (previous : Option Char) : List Char → Features
  | [] => f
  | c :: cs =>
    let next := cs.head?
    let first := previous.isNone
    let last := next.isNone
    let space := c == ' '
    let brk := isBreak c
    let afterBreak := match previous with
      | some p => isBreak p
      | none => false
    scan { f with
      indicators := f.indicators ||
        (if first then startsIndicator c next else isIndicator previous c next)
      breaks := f.breaks || brk
      special := f.special || !isPrintable c
      leadingSpace := f.leadingSpace || (first && space)
      leadingBreak := f.leadingBreak || (first && brk)
      trailingSpace := f.trailingSpace || (last && space)
      trailingBreak := f.trailingBreak || (last && brk)
      breakSpace := f.breakSpace || (space && afterBreak)
      spaceBreak := f.spaceBreak || (brk && previous == some ' ') } (some c) cs

def ofText (cs : List Char) : Features :=
  let marker := match cs with
    | '-' :: '-' :: '-' :: _ => true
    | '.' :: '.' :: '.' :: _ => true
    | _ => false
  scan { indicators := marker } none cs

def allowsPlain (f : Features) : Bool :=
  !(f.leadingSpace || f.leadingBreak || f.trailingSpace || f.trailingBreak || f.breakSpace ||
    f.spaceBreak || f.special || f.breaks || f.indicators)

def allowsSingleQuotes (f : Features) : Bool := !(f.breakSpace || f.spaceBreak || f.special)

def allowsLiteral (f : Features) : Bool := !(f.trailingSpace || f.spaceBreak || f.special)

end Features

/-- Would the text without quotes be read as something other than itself? -/
def isAmbiguous (text : String) : Bool :=
  match Plain.ofText text with
  | .text => Plain.hasLeadingZero text.toList
  | _ => true

/-- How a text is written; a `simple` key stands on the line of its value. -/
def styleOf (text : String) (simple : Bool) : Style :=
  let f := Features.ofText text.toList
  let quoted := if f.allowsSingleQuotes && !(simple && f.breaks) then Style.singleQuoted
    else .doubleQuoted
  if text.toList.contains '\n' then
    if f.allowsLiteral && !simple then .literal else .doubleQuoted
  else if isAmbiguous text || !f.allowsPlain then quoted
  else .plain

/-- Does a key fit on the line of its value? -/
def isSimpleKey (text : String) : Bool :=
  !text.toList.any isBreak && text.utf8ByteSize ≤ 128

/-- A page that is being written. -/
structure Page where
  /-- The characters so far, last first. -/
  written : List Char := []
  column : Nat := 0
  /-- Does the line end in a space, or is it new? -/
  spaced : Bool := true
  /-- Has the line only indentation so far? -/
  indenting : Bool := true

namespace Page

def put (p : Page) (c : Char) : Page := { p with written := c :: p.written, column := p.column + 1 }

/-- Writes a character that ends the line. -/
def putBreak (p : Page) (c : Char) : Page := { p with written := c :: p.written, column := 0 }

/-- Writes characters that end no line. -/
def putAll (p : Page) (cs : List Char) : Page := cs.foldl put p

/-- Goes to the column `indent` of a line that has only indentation. -/
def toIndent (p : Page) (indent : Nat) : Page :=
  let p := if !p.indenting || indent < p.column || (p.column == indent && !p.spaced)
    then p.putBreak '\n' else p
  let p := p.putAll (List.replicate (indent - p.column) ' ')
  { p with spaced := true, indenting := true }

/-- Writes punctuation, after a space if the line does not end in one. -/
def indicator (p : Page) (text : String) (needsSpace spaced indenting : Bool) : Page :=
  let p := if needsSpace && !p.spaced then p.put ' ' else p
  let p := p.putAll text.toList
  { p with spaced, indenting := p.indenting && indenting }

/-- Writes a text without quotes. -/
def plain (p : Page) (cs : List Char) : Page :=
  let p := if !p.spaced && !cs.isEmpty then p.put ' ' else p
  { p.putAll cs with spaced := false, indenting := false }

/-- Writes the inside of single quotes; `broken` says whether a line break has just been written. -/
def singleBody (indent : Nat) : Page → Bool → List Char → Page × Bool
  | p, broken, [] => (p, broken)
  | p, broken, c :: cs =>
    if isBreak c then
      let p := if !broken && c == '\n' then p.putBreak '\n' else p
      singleBody indent { p.putBreak c with indenting := true } true cs
    else if c == ' ' then singleBody indent (p.put c) broken cs
    else
      let p := if broken then p.toIndent indent else p
      let p := if c == '\'' then p.put '\'' else p
      singleBody indent { p.put c with indenting := false } false cs

def singleQuoted (p : Page) (indent : Nat) (cs : List Char) : Page :=
  let (p, broken) := singleBody indent (p.indicator "'" true false false) false cs
  let p := if broken then p.toIndent indent else p
  { p.indicator "'" false false false with spaced := false, indenting := false }

def hexDigits : Nat → Nat → List Char
  | 0, _ => []
  | width + 1, n => hexDigits width (n / 16) ++ [(Json.hexDigit (n % 16)).toUpper]

/-- A character inside double quotes. -/
def escape (c : Char) : List Char :=
  let n := c.toNat
  if isPrintable c && !isBreak c && c != '"' && c != '\\' then [c]
  else
    '\\' ::
      if n = 0 then ['0']
      else if n = 7 then ['a']
      else if n = 8 then ['b']
      else if n = 9 then ['t']
      else if n = 10 then ['n']
      else if n = 11 then ['v']
      else if n = 12 then ['f']
      else if n = 13 then ['r']
      else if n = 0x1B then ['e']
      else if n = 0x22 || n = 0x5C then [c]
      else if n = 0x85 then ['N']
      else if n = 0xA0 then ['_']
      else if n = 0x2028 then ['L']
      else if n = 0x2029 then ['P']
      else if n ≤ 0xFF then 'x' :: hexDigits 2 n
      else if n ≤ 0xFFFF then 'u' :: hexDigits 4 n
      else 'U' :: hexDigits 8 n

def doubleQuoted (p : Page) (cs : List Char) : Page :=
  let p := (p.indicator "\"" true false false).putAll (cs.flatMap escape)
  { p.indicator "\"" false false false with spaced := false, indenting := false }

/-- What follows the bar of a literal block: its indentation where the text starts with a space or a
break, and how the breaks at its end count. -/
def literalHints (cs : List Char) : List Char :=
  let indentation := match cs with
    | c :: _ => if c == ' ' || isBreak c then ['2'] else []
    | [] => []
  let ending := match cs.reverse with
    | [] => ['-']
    | c :: rest =>
      if !isBreak c then ['-']
      else
        match rest with
        | [] => ['+']
        | d :: _ => if isBreak d then ['+'] else []
  indentation ++ ending

/-- Writes the lines of a literal block. -/
def literalBody (indent : Nat) : Page → Bool → List Char → Page
  | p, _, [] => p
  | p, broken, c :: cs =>
    if isBreak c then literalBody indent { p.putBreak c with indenting := true } true cs
    else
      let p := if broken then p.toIndent indent else p
      literalBody indent { p.put c with indenting := false } false cs

def literal (p : Page) (indent : Nat) (cs : List Char) : Page :=
  let p := (p.indicator "|" true false false).putAll (literalHints cs)
  literalBody indent { p.putBreak '\n' with spaced := true, indenting := true } true cs

/-- Writes a text; `indent` is the indentation of its further lines. -/
def text (p : Page) (indent : Nat) (s : String) (simple : Bool) : Page :=
  match styleOf s simple with
  | .plain => p.plain s.toList
  | .singleQuoted => p.singleQuoted indent s.toList
  | .doubleQuoted => p.doubleQuoted s.toList
  | .literal => p.literal indent s.toList

mutual

/-- Writes a value whose parts stand at the indentation `indent`; the items of a list that is the
value of a key stand at that of the key, `outer`. -/
def value (p : Page) (outer : Option Nat) (indent : Nat) : Json → Page
  | .null => p.plain "null".toList
  | .bool b => p.plain (if b then "true" else "false").toList
  | .number n => p.plain n.text.toList
  | .string s => p.text indent s false
  | .array [] => p.indicator "[]" true false false
  | .object [] => p.indicator "\x7b\x7d" true false false
  | .array items =>
    match outer with
    | some column => valueItems p column items
    | none => valueItems p indent items
  | .object fields => valueFields p indent fields

def valueItems (p : Page) (column : Nat) : List Json → Page
  | [] => p
  | v :: vs =>
    let p := (p.toIndent column).indicator "-" true false true
    valueItems (value p none (column + 2) v) column vs

def valueFields (p : Page) (column : Nat) : List (String × Json) → Page
  | [] => p
  | (k, v) :: fs =>
    let p := p.toIndent column
    let p :=
      if isSimpleKey k then (p.text (column + 2) k true).indicator ":" false false false
      else
        let p := (p.indicator "?" true false true).text (column + 2) k false
        (p.toIndent column).indicator ":" true false true
    let outer := if isSimpleKey k then some column else none
    valueFields (value p outer (column + 2) v) column fs

end

end Page

def write (v : Json) : String :=
  String.ofList ((Page.value {} none 0 v).toIndent 0).written.reverse

end StepGraph.Yaml
