import StepGraph.Formula.Arithmetic
import StepGraph.Formula.Tree
import StepGraph.OrderedMap

/-!
# Evaluating formulas

The operands of an operator are evaluated from left to right before it is applied.  Two whole
numbers give a whole number, other numbers a float; a power is always a float.  Nothing can be
assigned.
-/

namespace StepGraph.Formula

/-- The values of names. -/
abbrev Bindings := List (String × Value)

namespace Value

def number (v : Value) : Except Fault Float :=
  match v with
  | .int n => .ok (floatOfInt n)
  | .float x => .ok x
  | v => .error (.expectedNumber v)

def boolean (v : Value) : Except Fault Bool :=
  match v with
  | .bool b => .ok b
  | v => .error (.expectedBoolean v)

/-- Nothing, for a number or a text. -/
def numberOrText (v : Value) : Except Fault Unit :=
  match v with
  | .int _ | .float _ | .text _ => .ok ()
  | v => .error (.expectedNumberOrString v)

def tupleItems (v : Value) : Except Fault (List Value) :=
  match v with
  | .tuple items => .ok items
  | v => .error (.expectedTuple v)

/-- The items of a tuple of a size. -/
def tupleOf (size : Nat) (v : Value) : Except Fault (List Value) :=
  match v with
  | .tuple items => if items.length = size then .ok items else .error (.expectedTupleOf size v)
  | v => .error (.expectedTuple v)

end Value

/-- Applies an operation on numbers. -/
def onNumbers (ints : Int64 → Int64 → Except Fault Int64) (floats : Float → Float → Float)
    (a b : Value) : Except Fault Value := do
  let x ← a.number
  let y ← b.number
  match a, b with
  | .int m, .int n => return .int (← ints m n)
  | _, _ => return .float (floats x y)

/-- Adds two numbers or joins two texts. -/
def add (a b : Value) : Except Fault Value := do
  a.numberOrText
  b.numberOrText
  match a, b with
  | .text s, .text t => return .text (s ++ t)
  | .text _, _ | _, .text _ => throw (.typeCombination "Add" [a.typeName, b.typeName])
  | _, _ => onNumbers addInt (· + ·) a b

/-- Compares two numbers or two texts. -/
def compareValues (texts : String → String → Bool) (ints : Int64 → Int64 → Bool)
    (floats : Float → Float → Bool) (a b : Value) : Except Fault Value := do
  a.numberOrText
  b.numberOrText
  match a, b with
  | .text s, .text t => return .bool (texts s t)
  | .int m, .int n => return .bool (ints m n)
  | _, _ =>
    let x ← a.number
    let y ← b.number
    return .bool (floats x y)

/-- Joins two truth values. -/
def onBooleans (f : Bool → Bool → Bool) (a b : Value) : Except Fault Value := do
  let x ← a.boolean
  let y ← b.boolean
  return .bool (f x y)

def power (a b : Value) : Except Fault Value := do
  let x ← a.number
  let y ← b.number
  return .float (x.pow y)

def BinaryOp.apply (op : BinaryOp) (a b : Value) : Except Fault Value :=
  match op with
  | .add => Formula.add a b
  | .sub => onNumbers subInt (· - ·) a b
  | .mul => onNumbers mulInt (· * ·) a b
  | .div => onNumbers divInt (· / ·) a b
  | .mod => onNumbers modInt modFloat a b
  | .exp => power a b
  | .eq => .ok (.bool (a.same b))
  | .neq => .ok (.bool (!a.same b))
  | .gt => compareValues (fun s t => t < s) (fun m n => n < m) (fun x y => y < x) a b
  | .lt => compareValues (fun s t => s < t) (fun m n => m < n) (fun x y => x < y) a b
  | .geq => compareValues (fun s t => !(s < t)) (fun m n => n ≤ m) (fun x y => y ≤ x) a b
  | .leq => compareValues (fun s t => !(t < s)) (fun m n => m ≤ n) (fun x y => x ≤ y) a b
  | .and => onBooleans (· && ·) a b
  | .or => onBooleans (· || ·) a b

/-- Changes the sign of a number. -/
def negate (v : Value) : Except Fault Value := do
  let x ← v.number
  match v with
  | .int n => return .int (← negInt n)
  | _ => return .float (-x)

/-- The better one of the best number so far and a new one; of two equally good ones the new one.  A
new float that is not a number is never as good. -/
def better {α : Type} (asGood : α → α → Bool) (best new : α) : α :=
  if asGood new best then new else best

/-- The best whole number and the best float of a list of numbers, where `n` and `x` are the best so
far. -/
def extremes (ints : Int64 → Int64 → Bool) (floats : Float → Float → Bool) (n : Int64) (x : Float) :
    List Value → Except Fault (Int64 × Float)
  | [] => .ok (n, x)
  | .int m :: vs => extremes ints floats (better ints n m) x vs
  | .float y :: vs => extremes ints floats n (better floats x y) vs
  | v :: _ => .error (.expectedNumber v)

/-- The best number of a tuple: the best float if it is as good as the best whole number.  The
search starts from the worst number of either kind, which stands for the kind if the tuple has
nothing better. -/
def extreme (ints : Int64 → Int64 → Bool) (floats : Float → Float → Bool) (worstInt : Int64)
    (worstFloat : Float) (v : Value) : Except Fault Value := do
  let items ← v.tupleItems
  let (n, x) ← extremes ints floats worstInt worstFloat items
  return if floats x (Value.floatOfInt n) then .float x else .int n

def smallest : Value → Except Fault Value :=
  extreme (· ≤ ·) (· ≤ ·) Int64.maxValue (1.0 / 0.0)

def largest : Value → Except Fault Value :=
  extreme (fun m n => n ≤ m) (fun x y => y ≤ x) Int64.minValue (-1.0 / 0.0)

def onFloat (f : Float → Float) (v : Value) : Except Fault Value := do
  let x ← v.number
  return .float (f x)

/-- A function of two floats, which are given as a tuple. -/
def onFloats (f : Float → Float → Float) (v : Value) : Except Fault Value := do
  match ← v.tupleOf 2 with
  | [a, b] =>
    let x ← a.number
    let y ← b.number
    return .float (f x y)
  | _ => throw (.expectedTupleOf 2 v)

def absolute (v : Value) : Except Fault Value :=
  match v with
  | .float x => .ok (.float x.abs)
  | .int n => if n < 0 then (negInt n).map .int else .ok (.int n)
  | v => .error (.expectedNumber v)

/-- The second or the third member of a tuple, as the first one says. -/
def choose (v : Value) : Except Fault Value := do
  match ← v.tupleOf 3 with
  | [condition, yes, no] =>
    let b ← condition.boolean
    return if b then yes else no
  | _ => throw (.expectedTupleOf 3 v)

/-- The number of bytes of a text, or of members of a tuple. -/
def size (v : Value) : Except Fault Value :=
  match v with
  | .text s => .ok (.int (Int64.ofNat s.utf8ByteSize))
  | .tuple items => .ok (.int (Int64.ofNat items.length))
  | v => .error (.expectedOneOf "String, Tuple" v)

def function? (name : String) : Option (Value → Except Fault Value) :=
  match name with
  | "min" => some smallest
  | "max" => some largest
  | "if" => some choose
  | "floor" => some (onFloat Float.floor)
  | "round" => some (onFloat Float.round)
  | "ceil" => some (onFloat Float.ceil)
  | "math::abs" => some absolute
  | "math::sqrt" => some (onFloat Float.sqrt)
  | "math::pow" => some (onFloats Float.pow)
  | "math::hypot" => some (onFloats hypot)
  | "len" => some size
  | "typeof" => some fun v => .ok (.text v.typeName.toLower)
  | "str::from" => some fun v => .ok (.text v.asText)
  | _ => none

def Operator.apply (bindings : Bindings) (op : Operator) (operands : List Value) :
    Except Fault Value :=
  let wrongCount (expected : Nat) : Except Fault Value :=
    .error (.argumentCount expected operands.length)
  match op with
  | .root => .ok (operands.headD .empty)
  | .binary op =>
    match operands with
    | [a, b] => op.apply a b
    | _ => wrongCount 2
  | .neg =>
    match operands with
    | [a] => negate a
    | _ => wrongCount 1
  | .not =>
    match operands with
    | [a] => a.boolean.map fun b => .bool !b
    | _ => wrongCount 1
  | .assign _ => .error .notMutable
  | .tuple => .ok (.tuple operands)
  | .chain =>
    match operands.getLast? with
    | some v => .ok v
    | none => wrongCount 1
  | .value v => .ok v
  | .write name => .ok (.text name)
  | .read name =>
    match Entries.find? name bindings with
    | some v => .ok v
    | none => .error (.unboundVariable name)
  | .call name =>
    match operands with
    | [v] =>
      match function? name with
      | some f => f v
      | none => .error (.unboundFunction name)
    | _ => wrongCount 1

mutual

def Tree.eval (bindings : Bindings) : Tree → Except Fault Value
  | .node op operands =>
    match evalOperands bindings [] operands with
    | .ok values => op.apply bindings values
    | .error e => .error e

/-- The values of operands that are listed last first, in front of those in `later`; of two operands
without a value the first one counts. -/
def evalOperands (bindings : Bindings) (later : List Value) : List Tree → Except Fault (List Value)
  | [] => .ok later
  | t :: ts =>
    match t.eval bindings with
    | .ok v => evalOperands bindings (v :: later) ts
    | .error e =>
      match evalOperands bindings [] ts with
      | .ok _ => .error e
      | .error e => .error e

end

def evaluate (bindings : Bindings) (text : String) : Except Fault Value := do
  let t ← parse text
  t.eval bindings

end StepGraph.Formula
