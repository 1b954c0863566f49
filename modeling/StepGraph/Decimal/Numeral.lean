/-!
# Numerals

Whole numbers written with the digits of a radix, and those that fit a word of 64 bits.  A numeral
has at least one digit; a sign is read only by the functions that say so.
-/

namespace StepGraph.Decimal

/-- The value of a digit in a radix up to 36; letters of either case stand for ten and more. -/
def digitValue? (radix : Nat) (c : Char) : Option Nat :=
  let n := c.toNat
  let value? :=
    if 48 ≤ n ∧ n ≤ 57 then some (n - 48)
    else if 97 ≤ n ∧ n ≤ 122 then some (n - 87)
    else if 65 ≤ n ∧ n ≤ 90 then some (n - 55)
    else none
  value?.filter (· < radix)

def isDigit (c : Char) : Bool := 48 ≤ c.toNat && c.toNat ≤ 57

/-- The value of a decimal digit; of use only where `isDigit` holds. -/
def digit (c : Char) : Nat := c.toNat - 48

/-- Continues a numeral whose digits so far have the value `n`. -/
def readDigits? (radix : Nat) : Nat → List Char → Option Nat
  | n, [] => some n
  | n, c :: cs => (digitValue? radix c).bind fun d => readDigits? radix (n * radix + d) cs

def natural? (radix : Nat) : List Char → Option Nat
  | [] => none
  | c :: cs => readDigits? radix 0 (c :: cs)

/-- The value of a numeral that may start with one sign. -/
def integer? (radix : Nat) : List Char → Option Int
  | '+' :: cs => (natural? radix cs).map Int.ofNat
  | '-' :: cs => (natural? radix cs).map fun n => -Int.ofNat n
  | cs => (natural? radix cs).map Int.ofNat

def fitInt64? (n : Int) : Option Int64 :=
  if Int64.minValue.toInt ≤ n ∧ n ≤ Int64.maxValue.toInt then some (Int64.ofInt n) else none

def fitUInt64? (n : Int) : Option UInt64 :=
  if 0 ≤ n ∧ n.toNat < UInt64.size then some (UInt64.ofNat n.toNat) else none

/-- The value of a decimal numeral that may start with one sign, if it fits 64 bits. -/
def int64? (cs : List Char) : Option Int64 :=
  (integer? 10 cs).bind fitInt64?

/-- The value of the digits in front of a text, and what follows them. -/
def spanDigits (cs : List Char) : List Char × List Char :=
  (cs.takeWhile isDigit, cs.dropWhile isDigit)

end StepGraph.Decimal
