import StepGraph.Decimal.Basic
import StepGraph.Text.Character

/-!
# Names of artifacts

A name may not be blank and may not read as a number.  The numbers meant are those an editor would
turn into one: decimals with or without sign, point and exponent, `Infinity` with or without sign,
and unsigned whole numbers behind `0x`, `0o` or `0b`.
-/

namespace StepGraph.Directive

/-- Why a name is refused. -/
inductive NameFault
  | blank
  | numeric
deriving DecidableEq, Repr

def NameFault.message : NameFault → String
  | .blank => "the name cannot be empty or consist only of white space"
  | .numeric => "the name cannot consist of only numbers"

/-- The radix that a letter after a zero announces. -/
def radix? (c : Char) : Option Nat :=
  if c = 'x' ∨ c = 'X' then some 16
  else if c = 'o' ∨ c = 'O' then some 8
  else if c = 'b' ∨ c = 'B' then some 2
  else none

def isInfinity (cs : List Char) : Bool :=
  cs == "Infinity".toList || cs == "+Infinity".toList || cs == "-Infinity".toList

/-- The characters that a decimal is written with. -/
def isDecimalChar (c : Char) : Bool :=
  Decimal.isDigit c || c == '+' || c == '-' || c == '.' || c == 'e' || c == 'E'

/-- Is the text a float that is written as a decimal? -/
def readsAsDecimal (cs : List Char) : Bool :=
  cs.all isDecimalChar && (Decimal.readFloat? cs).isSome

/-- Would an editor read the text as a number? -/
def readsAsNumber (cs : List Char) : Bool :=
  isInfinity cs ||
    match cs with
    | '0' :: c :: digits =>
      match radix? c with
      | some radix => (Decimal.natural? radix digits).isSome
      | none => readsAsDecimal cs
    | cs => readsAsDecimal cs

def checkName (name : String) : Except NameFault Unit :=
  let cs := Text.trim name.toList
  if cs.isEmpty then .error .blank
  else if readsAsNumber cs then .error .numeric
  else .ok ()

end StepGraph.Directive
