import StepGraph.Json.Draft

/-!
# Reading JSON

`Json.read?` reads a whole text as one value, and `Json.readDraft` reads it as far as it goes.
White space may stand around every part of a text; comments, commas before a closing bracket and
values after the first are faults.  Lists and objects may be nested 127 deep.

A number without point and exponent that fits 64 bits is whole.  All others are floats, computed
from the leading digits that fit an unsigned 64-bit word and a power of ten: one rounding for the
word, one for the multiplication or division.  The result can differ from the nearest float in the
last place.
-/

namespace StepGraph.Json

def isSpace (c : Char) : Bool := c == ' ' || c == '\n' || c == '\t' || c == '\r'

def skipSpace (cs : List Char) : List Char := cs.dropWhile isSpace

namespace NumberText

open Decimal (isDigit digit)

/-- Does another digit still fit the unsigned 64-bit word? -/
def fits (word d : Nat) : Bool := word * 10 + d < UInt64.size

/-- Reads digits into the word while they fit; answers the word and what follows. -/
def fillWord : Nat → List Char → Nat × List Char
  | word, [] => (word, [])
  | word, c :: cs =>
    if isDigit c && fits word (digit c) then fillWord (word * 10 + digit c) cs else (word, c :: cs)

/-- The float `word · 10 ^ e`, or nothing if it is too large.  The power is taken in steps of at
most `10 ^ 308`; after a few steps down the float is zero. -/
def scale? (word : Nat) (e : Int) : Option Float :=
  let rec go : Nat → Float → Int → Option Float
    | 0, x, _ => some x
    | fuel + 1, x, e =>
      if e.natAbs ≤ 308 then
        let power := Float.ofScientific 1 false e.natAbs
        if 0 ≤ e then
          let y := x * power
          if y.isInf then none else some y
        else some (x / power)
      else if x == 0.0 then some x
      else if 0 ≤ e then none
      else go fuel (x / 1e308) (e + 308)
  go 8 (Float.ofNat word) e

/-- A float with its sign, and what follows it. -/
def finish? (negative : Bool) (word : Nat) (e : Int) (rest : List Char) :
    Option (Number × List Char) :=
  (scale? word e).map fun x => (.ofFloat (if negative then -x else x), rest)

/-- Reads what may follow the digits of a float: an exponent or nothing.  An exponent beyond 32 bits
makes a positive power too large and a negative one zero, unless all digits are zero. -/
def readExponent? (negative : Bool) (word : Nat) (e : Int) :
    List Char → Option (Number × List Char)
  | [] => finish? negative word e []
  | c :: cs =>
    if c = 'e' ∨ c = 'E' then
      let (down, ds) := match cs with
        | '+' :: ds => (false, ds)
        | '-' :: ds => (true, ds)
        | ds => (false, ds)
      let (part, rest) := Decimal.spanDigits ds
      if part.isEmpty then none
      else
        let n := Decimal.ofDigits part
        if n < Nat.pow 2 31 then finish? negative word (if down then e - n else e + n) rest
        else if word ≠ 0 && !down then none
        else some (.ofFloat (if negative then -0.0 else 0.0), rest)
    else finish? negative word e (c :: cs)

/-- Reads the digits after a point.  Digits that no longer fit the word are passed over. -/
def readFraction? (negative : Bool) (word : Nat) (e : Int) (cs : List Char) :
    Option (Number × List Char) :=
  let (word', rest) := fillWord word cs
  let count := cs.length - rest.length
  let more := rest.dropWhile isDigit
  if count = 0 && more.length = rest.length then none
  else readExponent? negative word' (e - count) more

/-- Reads what follows the whole part of a number whose digits all fit the word. -/
def readRest? (negative : Bool) (word : Nat) : List Char → Option (Number × List Char)
  | '.' :: cs => readFraction? negative word 0 cs
  | 'e' :: cs => readExponent? negative word 0 ('e' :: cs)
  | 'E' :: cs => readExponent? negative word 0 ('E' :: cs)
  | cs =>
    if !negative then some (.integer word, cs)
    else if word = 0 || Nat.pow 2 63 < word then
      some (.ofFloat (-(Float.ofNat word)), cs)
    else some (.integer (-(word : Int)), cs)

/-- Reads what follows the digits that fit the word when more digits follow: they count as powers of
ten. -/
def readLong? (negative : Bool) (word : Nat) (cs : List Char) : Option (Number × List Char) :=
  let rest := cs.dropWhile isDigit
  let e : Int := (cs.length - rest.length : Nat)
  match rest with
  | '.' :: rest => readFraction? negative word e rest
  | rest => readExponent? negative word e rest

def readUnsigned? (negative : Bool) : List Char → Option (Number × List Char)
  | '0' :: c :: cs => if isDigit c then none else readRest? negative 0 (c :: cs)
  | '0' :: [] => readRest? negative 0 []
  | c :: cs =>
    if isDigit c then
      match fillWord 0 (c :: cs) with
      | (word, d :: rest) =>
        if isDigit d then readLong? negative word (d :: rest)
        else readRest? negative word (d :: rest)
      | (word, []) => readRest? negative word []
    else none
  | [] => none

def read? : List Char → Option (Number × List Char)
  | '-' :: cs => readUnsigned? true cs
  | cs => readUnsigned? false cs

end NumberText

namespace QuotedText

def hex4? : List Char → Option (Nat × List Char)
  | a :: b :: c :: d :: cs => (Decimal.natural? 16 [a, b, c, d]).map fun n => (n, cs)
  | _ => none

/-- Reads the character after `\u`: four digits, or two groups of four for a character beyond the
first plane.  Half of such a pair is a fault. -/
def unicode? (cs : List Char) : Option (Char × List Char) :=
  match hex4? cs with
  | none => none
  | some (n, rest) =>
    if 0xDC00 ≤ n ∧ n ≤ 0xDFFF then none
    else if n < 0xD800 ∨ 0xDBFF < n then some (Char.ofNat n, rest)
    else
      match rest with
      | '\\' :: 'u' :: rest =>
        match hex4? rest with
        | some (n', rest) =>
          if 0xDC00 ≤ n' ∧ n' ≤ 0xDFFF then
            some (Char.ofNat (0x10000 + (n - 0xD800) * 0x400 + (n' - 0xDC00)), rest)
          else none
        | none => none
      | _ => none

/-- The character that a letter after a backslash stands for. -/
def escaped? : Char → Option Char
  | '"' => some '"'
  | '\\' => some '\\'
  | '/' => some '/'
  | 'b' => some '\x08'
  | 'f' => some '\x0c'
  | 'n' => some '\n'
  | 'r' => some '\r'
  | 't' => some '\t'
  | _ => none

/-- Reads up to the closing quote; `done` holds the characters so far, last first. -/
def readBody? : Nat → List Char → List Char → Option (String × List Char)
  | 0, _, _ => none
  | _ + 1, _, [] => none
  | fuel + 1, done, c :: cs =>
    if c = '"' then some (String.ofList done.reverse, cs)
    else if c = '\\' then
      match cs with
      | 'u' :: cs =>
        match unicode? cs with
        | some (c, cs) => readBody? fuel (c :: done) cs
        | none => none
      | e :: cs =>
        match escaped? e with
        | some c => readBody? fuel (c :: done) cs
        | none => none
      | [] => none
    else if c.toNat < 32 then none
    else readBody? fuel (c :: done) cs

/-- Reads a text whose opening quote has been read. -/
def read? (cs : List Char) : Option (String × List Char) := readBody? (cs.length + 1) [] cs

end QuotedText

mutual

/-- Reads a value that may nest lists and objects `depth` deep.  The second part of the answer is
the rest of the text, or nothing after a fault. -/
def readValue : Nat → Nat → List Char → Draft × Option (List Char)
  | 0, _, _ => (.cut, none)
  | fuel + 1, depth, cs =>
    match skipSpace cs with
    | 'n' :: 'u' :: 'l' :: 'l' :: rest => (.null, some rest)
    | 't' :: 'r' :: 'u' :: 'e' :: rest => (.bool true, some rest)
    | 'f' :: 'a' :: 'l' :: 's' :: 'e' :: rest => (.bool false, some rest)
    | '"' :: rest =>
      match QuotedText.read? rest with
      | some (s, rest) => (.string s, some rest)
      | none => (.cut, none)
    | '[' :: rest =>
      if depth = 0 then (.cut, none)
      else
        match skipSpace rest with
        | ']' :: rest => (.array [] true, some rest)
        | rest =>
          let (items, rest?) := readItems fuel (depth - 1) rest
          (.array items rest?.isSome, rest?)
    | '\x7b' :: rest =>
      if depth = 0 then (.cut, none)
      else
        match skipSpace rest with
        | '\x7d' :: rest => (.object [] true, some rest)
        | rest =>
          let (fields, rest?) := readFields fuel (depth - 1) rest
          (.object fields rest?.isSome, rest?)
    | cs =>
      match NumberText.read? cs with
      | some (n, rest) => (.number n, some rest)
      | none => (.cut, none)

def readItems : Nat → Nat → List Char → List Draft × Option (List Char)
  | 0, _, _ => ([], none)
  | fuel + 1, depth, cs =>
    match readValue fuel depth cs with
    | (d, none) => ([d], none)
    | (d, some rest) =>
      match skipSpace rest with
      | ']' :: rest => ([d], some rest)
      | ',' :: rest =>
        let (ds, rest?) := readItems fuel depth rest
        (d :: ds, rest?)
      | _ => ([d], none)

def readFields : Nat → Nat → List Char → List (String × Draft) × Option (List Char)
  | 0, _, _ => ([], none)
  | fuel + 1, depth, cs =>
    match skipSpace cs with
    | '"' :: rest =>
      match QuotedText.read? rest with
      | none => ([], none)
      | some (key, rest) =>
        match skipSpace rest with
        | ':' :: rest =>
          match readValue fuel depth rest with
          | (d, none) => ([(key, d)], none)
          | (d, some rest) =>
            match skipSpace rest with
            | '\x7d' :: rest => ([(key, d)], some rest)
            | ',' :: rest =>
              let (ds, rest?) := readFields fuel depth rest
              ((key, d) :: ds, rest?)
            | _ => ([(key, d)], none)
        | _ => ([(key, .cut)], none)
    | _ => ([], none)

end

/-- How deep lists and objects may be nested. -/
def maxDepth : Nat := 127

/-- Reads a text as far as it goes.  The second part of the answer says whether the text is one
value with nothing after it. -/
def readDraft (text : String) : Draft × Bool :=
  let cs := text.toList
  match readValue (2 * cs.length + 4) maxDepth cs with
  | (d, some rest) => (d, (skipSpace rest).isEmpty)
  | (d, none) => (d, false)

/-- Reads a text as one value. -/
def read? (text : String) : Option Json :=
  match readDraft text with
  | (d, true) => d.value?
  | (_, false) => none

end StepGraph.Json
