import StepGraph.Decimal.Shortest
import StepGraph.Formula.Error

/-!
# Arithmetic of formulas

Whole numbers are added, subtracted, multiplied and divided within 64 bits; a result that does not
fit is a fault, and so is division by zero.  Division drops the fraction, and the remainder has the
sign of the dividend.  The remainder of two floats is given by its exact result, which is always a
float; the length of the hypotenuse is a root with one step of correction.
-/

namespace StepGraph.Formula

/-- The 64-bit number, or the fault of the computation. -/
def fitOr (fault : Fault) (n : Int) : Except Fault Int64 :=
  match Decimal.fitInt64? n with
  | some n => .ok n
  | none => .error fault

def addInt (a b : Int64) : Except Fault Int64 :=
  fitOr (.arithmetic "adding" (some a) "+" b) (a.toInt + b.toInt)

def subInt (a b : Int64) : Except Fault Int64 :=
  fitOr (.arithmetic "subtracting" (some a) "-" b) (a.toInt - b.toInt)

def mulInt (a b : Int64) : Except Fault Int64 :=
  fitOr (.arithmetic "multiplying" (some a) "*" b) (a.toInt * b.toInt)

def negInt (a : Int64) : Except Fault Int64 :=
  fitOr (.arithmetic "negating" none "-" a) (-a.toInt)

/-- The quotient of two whole numbers without its fraction. -/
def divInt (a b : Int64) : Except Fault Int64 :=
  let fault := Fault.arithmetic "dividing" (some a) "/" b
  if b = 0 then .error fault else fitOr fault (a.toInt.tdiv b.toInt)

/-- The remainder of two whole numbers, where the quotient fits. -/
def modInt (a b : Int64) : Except Fault Int64 :=
  let fault := Fault.arithmetic "modulating" (some a) "%" b
  if b = 0 then .error fault
  else
    match Decimal.fitInt64? (a.toInt.tdiv b.toInt) with
    | some _ => fitOr fault (a.toInt.tmod b.toInt)
    | none => .error fault

/-- The finite float `m · 2 ^ q`, if it is one, else the nearest one. -/
def ofBinary (m : Nat) (q : Int) : Float := (Float.ofNat m).scaleB q

/-- The remainder of two floats: the dividend less a whole multiple of the divisor, with the sign of
the dividend and smaller than the divisor. -/
def modFloat (x y : Float) : Float :=
  if x.isNaN || y.isNaN || x.isInf || y == 0 then 0.0 / 0.0
  else if y.isInf then x
  else
    let a := Decimal.Binary.ofBits x.toBits
    let b := Decimal.Binary.ofBits y.toBits
    let q := min a.q b.q
    let r := (a.m * Nat.pow 2 (a.q - q).toNat) % (b.m * Nat.pow 2 (b.q - q).toNat)
    let z := ofBinary r q
    if x.toBits.toNat / Nat.pow 2 63 == 1 then -z else z

/-- The length of the hypotenuse over `short ≤ long`, for sides whose squares are in the range of
floats: the root of the sum of the squares, less the error that its square shows.  The error is
computed from a difference to one of the sides, so that little of it is lost in rounding. -/
def hypotInRange (long short : Float) : Float :=
  let h := (long * long + short * short).sqrt
  let error :=
    if h ≤ 2.0 * short then
      let d := h - short
      long * (2.0 * d - long) + (d - 2.0 * (long - short)) * d
    else
      let d := h - long
      2.0 * d * (long - 2.0 * short) + ((4.0 * d - short) * short + d * d)
  h - error / (2.0 * h)

/-- The length of the hypotenuse over two finite sides `short ≤ long`.  A side that is too short to
count is added to the other; very long and very short sides are scaled to where squares are in
range. -/
def hypotOrdered (long short : Float) : Float :=
  let negligible : Float := Float.scaleB 1.0 (-54)
  let scale : Float := Float.scaleB 1.0 (-600)
  if long > Float.scaleB 1.0 511 then
    if short ≤ long * negligible then long + short
    else hypotInRange (long * scale) (short * scale) / scale
  else if short < Float.scaleB 1.0 (-459) then
    if long ≥ short / negligible then long + short
    else hypotInRange (long / scale) (short / scale) * scale
  else if short ≤ long * negligible then long + short
  else hypotInRange long short

/-- The length of the hypotenuse over two sides, whose signs do not count.  An infinite side makes
it infinite, whatever the other one is. -/
def hypot (x y : Float) : Float :=
  if x.isInf || y.isInf then 1.0 / 0.0
  else if x.isNaN || y.isNaN then 0.0 / 0.0
  else if x.abs < y.abs then hypotOrdered y.abs x.abs
  else hypotOrdered x.abs y.abs

end StepGraph.Formula
