import StepGraph.Decimal.Layout
import StepGraph.Text.Character

/-!
# Values of formulas

A formula computes with 64-bit whole numbers, floats, truth values, texts, tuples and the empty
value.
-/

namespace StepGraph.Formula

inductive Value
  | int (n : Int64)
  | float (x : Float)
  | bool (b : Bool)
  | text (s : String)
  | tuple (items : List Value)
  | empty
deriving Inhabited

namespace Value

mutual

def shown : Value → String
  | .int n => toString n.toInt
  | .float x => Decimal.floatText .plain x
  | .bool b => if b then "true" else "false"
  | .text s => "\"" ++ s ++ "\""
  | .tuple items => "(" ++ shownItems items ++ ")"
  | .empty => "()"

def shownItems : List Value → String
  | [] => ""
  | [v] => shown v
  | v :: vs => shown v ++ ", " ++ shownItems vs

end

/-- The value as a text: a text is itself, other values are as they are shown. -/
def asText : Value → String
  | .text s => s
  | v => v.shown

/-- A text in quotes with escapes, for messages. -/
def escaped (s : String) : String :=
  let hex (n : Nat) : String := String.ofList (Nat.toDigits 16 n)
  let escape (c : Char) : String :=
    match c with
    | '"' => "\\\""
    | '\\' => "\\\\"
    | '\n' => "\\n"
    | '\r' => "\\r"
    | '\t' => "\\t"
    | c =>
      if c.toNat = 0 then "\\0"
      else if Text.isVisible c then c.toString
      else "\\u\x7b" ++ hex c.toNat ++ "\x7d"
  "\"" ++ String.join (s.toList.map escape) ++ "\""

mutual

/-- How a value is described in a message: with the name of its type. -/
def described : Value → String
  | .int n => "Int(" ++ toString n.toInt ++ ")"
  | .float x => "Float(" ++ Decimal.floatText .diagnostic x ++ ")"
  | .bool b => if b then "Boolean(true)" else "Boolean(false)"
  | .text s => "String(" ++ escaped s ++ ")"
  | .tuple items => "Tuple([" ++ describedItems items ++ "])"
  | .empty => "Empty"

def describedItems : List Value → String
  | [] => ""
  | [v] => described v
  | v :: vs => described v ++ ", " ++ describedItems vs

end

mutual

/-- Are two values the same?  A whole number is no float, and a float that is not a number differs
from itself. -/
def same : Value → Value → Bool
  | .int a, .int b => a == b
  | .float a, .float b => a == b
  | .bool a, .bool b => a == b
  | .text a, .text b => a == b
  | .tuple as, .tuple bs => sameItems as bs
  | .empty, .empty => true
  | _, _ => false

def sameItems : List Value → List Value → Bool
  | [], [] => true
  | a :: as, b :: bs => same a b && sameItems as bs
  | _, _ => false

end

/-- The name of the type of a value, in messages. -/
def typeName : Value → String
  | .int _ => "Int"
  | .float _ => "Float"
  | .bool _ => "Boolean"
  | .text _ => "String"
  | .tuple _ => "Tuple"
  | .empty => "Empty"

def floatOfInt (n : Int64) : Float :=
  if n < 0 then -(Float.ofNat n.toInt.natAbs) else Float.ofNat n.toInt.natAbs

end Value

end StepGraph.Formula
