import StepGraph.Decimal.Shortest

/-!
# Texts of floats

How a float is written: always by its shortest decimal, in positional notation for some exponents
and with an exponent for the others.  A `Layout` holds the choices a format makes.
-/

namespace StepGraph.Decimal

/-- The choices of a format for the text of a float. -/
structure Layout where
  /-- Is this decimal exponent written positionally? -/
  positional : Int → Bool
  /-- Does a whole number in positional notation end in `.0`? -/
  keepsPoint : Bool
  /-- Does a positive exponent have the sign `+`? -/
  signedExponent : Bool
  /-- Which one of two equally near shortest decimals is written? -/
  tie : Tie

namespace Layout

/-- Data files: positional from `10 ^ -5` below `10 ^ 16`, always with a point there, `1e+16`. -/
def data : Layout := ⟨fun e => -5 ≤ e && e ≤ 15, true, true, .even⟩

/-- Running text: positional always, whole numbers without a point. -/
def plain : Layout := ⟨fun _ => true, false, false, .up⟩

/-- Diagnostics: positional from `10 ^ -4` below `10 ^ 16`, always with a point there, `1e16`. -/
def diagnostic : Layout := ⟨fun e => -4 ≤ e && e ≤ 15, true, false, .up⟩

end Layout

def digitsOf (n : Nat) : List Char := Nat.toDigits 10 n

/-- Positional notation of the digits `ds` with exponent `e` on the first of them. -/
def positionalText (keepsPoint : Bool) (ds : List Char) (e : Int) : List Char :=
  let tail (part : List Char) : List Char :=
    if part.isEmpty then (if keepsPoint then ['.', '0'] else []) else '.' :: part
  if e < 0 then '0' :: tail (List.replicate (e.natAbs - 1) '0' ++ ds)
  else
    let whole := e.natAbs + 1
    ds.take whole ++ List.replicate (whole - ds.length) '0' ++ tail (ds.drop whole)

def exponentText (signed : Bool) (ds : List Char) (e : Int) : List Char :=
  let mantissa := match ds with
    | d :: d' :: ds => d :: '.' :: d' :: ds
    | ds => ds
  let sign := if e < 0 then ['-'] else if signed then ['+'] else []
  mantissa ++ 'e' :: sign ++ digitsOf e.natAbs

def text (layout : Layout) (d : Decimal) : String :=
  let ds := digitsOf d.coefficient
  let e := if d.coefficient = 0 then 0 else d.exponent + ds.length - 1
  let body :=
    if layout.positional e then positionalText layout.keepsPoint ds e
    else exponentText layout.signedExponent ds e
  String.ofList (if d.negative then '-' :: body else body)

/-- The text of a float; the three values that are no numbers have names. -/
def floatText (layout : Layout) (x : Float) : String :=
  if x.isNaN then "NaN"
  else if x.isInf then (if x < 0 then "-inf" else "inf")
  else (shortest layout.tie x.toBits).text layout

end StepGraph.Decimal
