import StepGraph.Decimal.Numeral

/-!
# Decimal fractions

A decimal fraction is a sign, a coefficient and a power of ten.  It is read from the usual texts
(`12`, `.5`, `5.`, `1e-3`, with a sign or without) and rounded to the nearest 64-bit float.
-/

namespace StepGraph

/-- The number `± coefficient · 10 ^ exponent`. -/
structure Decimal where
  negative : Bool
  coefficient : Nat
  exponent : Int
deriving DecidableEq, Repr

namespace Decimal

/-- The number of decimal digits of a natural number; one for zero. -/
def digitCount (n : Nat) : Nat := (Nat.toDigits 10 n).length

def ofDigits (cs : List Char) : Nat := cs.foldl (fun n c => n * 10 + digit c) 0

/-- Reads what may stand after the digits of a fraction: nothing, or `e`, a sign and digits. -/
def readExponent? : List Char → Option Int
  | [] => some 0
  | c :: cs => if c = 'e' ∨ c = 'E' then integer? 10 cs else none

/-- Reads an unsigned fraction: digits with or without a point among them, at least one digit, and
an exponent or none. -/
def readUnsigned? (negative : Bool) (cs : List Char) : Option Decimal :=
  let (whole, rest) := spanDigits cs
  let (part, rest) := match rest with
    | '.' :: rest => spanDigits rest
    | rest => ([], rest)
  if whole.isEmpty && part.isEmpty then none
  else (readExponent? rest).map fun e =>
    ⟨negative, ofDigits (whole ++ part), e - part.length⟩

/-- Reads a fraction that may start with one sign. -/
def read? : List Char → Option Decimal
  | '+' :: cs => readUnsigned? false cs
  | '-' :: cs => readUnsigned? true cs
  | cs => readUnsigned? false cs

/-- The nearest float.  Exponents far outside the range of floats are answered without computing the
power. -/
def toFloat (d : Decimal) : Float :=
  let size : Int := digitCount d.coefficient + d.exponent
  let magnitude : Float :=
    if d.coefficient = 0 || size < -400 then 0.0
    else if size > 400 then 1.0 / 0.0
    else if d.exponent < 0 then Float.ofScientific d.coefficient true d.exponent.natAbs
    else Float.ofScientific d.coefficient false d.exponent.natAbs
  if d.negative then -magnitude else magnitude

/-- Is the text `word`, in letters of either case? -/
def isWord (word : String) (cs : List Char) : Bool := cs.map Char.toLower == word.toList

/-- Reads a float: a fraction, or `inf`, `infinity` or `nan` in letters of either case, each with a
sign or without. -/
def readFloat? (cs : List Char) : Option Float :=
  let special? (cs : List Char) : Option Float :=
    if isWord "inf" cs || isWord "infinity" cs then some (1.0 / 0.0)
    else if isWord "nan" cs then some (0.0 / 0.0)
    else none
  match read? cs with
  | some d => some d.toFloat
  | none =>
    match cs with
    | '+' :: cs => special? cs
    | '-' :: cs => (special? cs).map (- ·)
    | cs => special? cs

end Decimal

end StepGraph
