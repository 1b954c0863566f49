import StepGraph.Decimal.Basic

/-!
# The shortest decimal of a float

Of all decimal fractions that round to a given finite float, `Decimal.shortest` has the fewest
digits, and of those it is the nearest; where two of them are equally near, a rule is given for
which one is taken.  A positive float is `m · 2 ^ q`; the reals that round to it
form an interval around it whose ends count exactly when `m` is even.  For one digit, two digits and
so on, the two neighbours of the float on the grid of decimals with that many digits are tried: if
any point of the grid lies in the interval, one of the neighbours does.
-/

namespace StepGraph.Decimal

/-- A positive float as `m · 2 ^ q`, and the distance down to the lower end of its interval in
quarters of a unit: one quarter after a power of two, two otherwise. -/
structure Binary where
  m : Nat
  q : Int
  below : Nat

/-- Takes the bits of a finite float apart; the sign is left out. -/
def Binary.ofBits (bits : UInt64) : Binary :=
  let fraction : Nat := bits.toNat % Nat.pow 2 52
  let scale : Nat := bits.toNat / Nat.pow 2 52 % Nat.pow 2 11
  if scale = 0 then ⟨fraction, -1074, 2⟩
  else ⟨Nat.pow 2 52 + fraction, (scale : Int) - 1075, if fraction = 0 ∧ scale ≠ 1 then 1 else 2⟩

/-- `10 ^ e` and `2 ^ e` split into a factor above and a factor below the line. -/
def above (base : Nat) (e : Int) : Nat := if e < 0 then 1 else Nat.pow base e.natAbs

/-- The factor below the line of `base ^ e`. -/
def beneath (base : Nat) (e : Int) : Nat := if e < 0 then Nat.pow base e.natAbs else 1

/-- The least `p` from `start` on with `num < den · 10 ^ p`, looked for `fuel` steps. -/
def leastPower (num den : Nat) : Nat → Int → Int
  | 0, p => p
  | fuel + 1, p =>
    if num * beneath 10 p < den * above 10 p then p else leastPower num den fuel (p + 1)

/-- Which one of two equally near decimals is taken. -/
inductive Tie
  /-- The one with an even last digit. -/
  | even
  /-- The one further from zero. -/
  | up
deriving DecidableEq

/-- Is `c` preferred to `c + 1` where both are equally near? -/
def Tie.prefersLower (tie : Tie) (c : Nat) : Bool :=
  match tie with
  | .even => c % 2 == 0
  | .up => false

/-- The point nearest to the float among the decimals `c · 10 ^ s`, if it rounds to the float, else
the one on the other side of the float, if that does. -/
def onGrid? (tie : Tie) (b : Binary) (s : Int) : Option Nat :=
  let unit := above 2 (b.q - 2) * beneath 10 s
  let den := beneath 2 (b.q - 2) * above 10 s
  let value := 4 * b.m * unit
  let low := (4 * b.m - b.below) * unit
  let high := (4 * b.m + 2) * unit
  let inside (c : Nat) : Bool :=
    if b.m % 2 = 0 then low ≤ c * den && c * den ≤ high else low < c * den && c * den < high
  let c := value / den
  let down := value - c * den
  let up := (c + 1) * den - value
  let first := down < up || (down == up && tie.prefersLower c)
  let (near, far) := if first then (c, c + 1) else (c + 1, c)
  if inside near then some near else if inside far then some far else none

/-- Tries `n` digits, `n + 1` digits and so on. -/
def searchDigits (tie : Tie) (b : Binary) (p : Int) : Nat → Int → Nat × Int
  | 0, n => (b.m, n)
  | fuel + 1, n =>
    match onGrid? tie b (p - n) with
    | some c => (c, p - n)
    | none => searchDigits tie b p fuel (n + 1)

/-- Drops zeros at the end of the coefficient. -/
def stripZeros : Nat → Nat → Int → Nat × Int
  | 0, c, s => (c, s)
  | fuel + 1, c, s => if c ≠ 0 ∧ c % 10 = 0 then stripZeros fuel (c / 10) (s + 1) else (c, s)

/-- The shortest decimal that rounds to the finite float with these bits. -/
def shortest (tie : Tie) (bits : UInt64) : Decimal :=
  let negative := bits.toNat / Nat.pow 2 63 == 1
  let b := Binary.ofBits bits
  if b.m = 0 then ⟨negative, 0, 0⟩
  else
    let num := b.m * above 2 b.q
    let den := beneath 2 b.q
    let guess := ((Nat.log2 b.m : Int) + b.q) * 30103 / 100000 - 1
    let p := leastPower num den 5 guess
    let (c, s) := searchDigits tie b p 17 1
    let (c, s) := stripZeros 20 c s
    ⟨negative, c, s⟩

end StepGraph.Decimal
