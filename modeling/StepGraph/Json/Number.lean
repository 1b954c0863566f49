import StepGraph.Decimal.Layout

/-!
# JSON numbers

A number is a whole number or a 64-bit float; `1` and `1.0` are different numbers.  A float is kept
by its bits, so that equality of numbers is decidable and tells `0.0` from `-0.0`.
-/

namespace StepGraph.Json

/-- A whole number, or a float given by its bits. -/
inductive Number
  | integer (n : Int)
  | float (bits : UInt64)
deriving DecidableEq, Repr

namespace Number

def ofFloat (x : Float) : Number := .float x.toBits

/-- The whole number, if it is one and fits a signed 64-bit word. -/
def int64? : Number → Option Int64
  | .integer n => Decimal.fitInt64? n
  | .float _ => none

/-- The whole number, if it is one and fits an unsigned 64-bit word. -/
def uint64? : Number → Option UInt64
  | .integer n => Decimal.fitUInt64? n
  | .float _ => none

def toFloat : Number → Float
  | .integer n => if n < 0 then -(Float.ofNat n.natAbs) else Float.ofNat n.natAbs
  | .float bits => Float.ofBits bits

def text : Number → String
  | .integer n => toString n
  | .float bits => Decimal.floatText .data (Float.ofBits bits)

end Number

end StepGraph.Json
