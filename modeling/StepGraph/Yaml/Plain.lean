import StepGraph.Decimal.Basic

/-!
# Plain scalars

What a YAML scalar without quotes stands for: nothing, a truth value, a number or its own text.  The
rules are those of the core schema, with binary numerals added and with `yes`, `no` and numerals
with leading zeros read as texts.
-/

namespace StepGraph.Yaml

/-- What a plain scalar stands for. -/
inductive Plain
  | null
  | bool (b : Bool)
  | integer (n : Int)
  | float (x : Float)
  /-- Its own text. -/
  | text

namespace Plain

open Decimal (natural? isDigit)

/-- Is the text a numeral with a zero too many in front? -/
def hasLeadingZero (cs : List Char) : Bool :=
  let unsigned := match cs with
    | '+' :: cs => cs
    | '-' :: cs => cs
    | cs => cs
  match unsigned with
  | '0' :: c :: cs => (c :: cs).all isDigit
  | _ => false

/-- Reads a numeral behind `0x`, `0o` or `0b`. -/
def readRadix? : List Char → Option Nat
  | '0' :: 'x' :: cs => natural? 16 cs
  | '0' :: 'o' :: cs => natural? 8 cs
  | '0' :: 'b' :: cs => natural? 2 cs
  | _ => none

/-- Reads a whole number: decimal, or with a radix, with a sign or without. -/
def readInteger? (cs : List Char) : Option Int :=
  let (negative, unsigned) := match cs with
    | '+' :: cs => (false, cs)
    | '-' :: cs => (true, cs)
    | cs => (false, cs)
  let limit : Nat := if negative then Nat.pow 2 127 + 1 else Nat.pow 2 128
  let bounded (n? : Option Nat) : Option Nat := n?.filter (· < limit)
  let n? := (bounded (readRadix? unsigned)).or
    (if hasLeadingZero cs then none else bounded (natural? 10 unsigned))
  n?.map fun n => if negative then -(n : Int) else n

/-- Reads a number that is not whole, or too large to be: a finite fraction, or a text for infinity
or not-a-number. -/
def readFloat? (cs : List Char) : Option Float :=
  let text := String.ofList cs
  if text = ".inf" || text = ".Inf" || text = ".INF" then some (1.0 / 0.0)
  else if text = "+.inf" || text = "+.Inf" || text = "+.INF" then some (1.0 / 0.0)
  else if text = "-.inf" || text = "-.Inf" || text = "-.INF" then some (-1.0 / 0.0)
  else if text = ".nan" || text = ".NaN" || text = ".NAN" then some (0.0 / 0.0)
  else
    match Decimal.read? cs with
    | some d => if d.toFloat.isFinite then some d.toFloat else none
    | none => none

def isNull (text : String) : Bool :=
  text == "null" || text == "Null" || text == "NULL" || text == "~"

def readBool? (text : String) : Option Bool :=
  if text = "true" || text = "True" || text = "TRUE" then some true
  else if text = "false" || text = "False" || text = "FALSE" then some false
  else none

/-- What a plain scalar with this text stands for. -/
def ofText (text : String) : Plain :=
  let cs := text.toList
  if text.isEmpty || isNull text then .null
  else
    match readBool? text with
    | some b => .bool b
    | none =>
      match readInteger? cs with
      | some n => .integer n
      | none =>
        if hasLeadingZero cs then .text
        else
          match readFloat? cs with
          | some x => .float x
          | none => .text

end Plain

end StepGraph.Yaml
