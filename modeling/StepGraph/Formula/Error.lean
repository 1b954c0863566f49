import StepGraph.Formula.Value

/-!
# Why a formula has no value
-/

namespace StepGraph.Formula

/-- Why a formula cannot be read or has no value. -/
inductive Fault
  | argumentCount (expected actual : Nat)
  | expectedNumber (v : Value)
  | expectedBoolean (v : Value)
  | expectedNumberOrString (v : Value)
  | expectedTuple (v : Value)
  | expectedTupleOf (size : Nat) (v : Value)
  | expectedOneOf (types : String) (v : Value)
  | appendedToLeaf
  | precedenceViolation
  | unboundVariable (name : String)
  | unboundFunction (name : String)
  | typeCombination (operator : String) (types : List String)
  | unmatchedOpen
  | unmatchedClose
  | unmatchedQuote
  | unmatchedComment
  | missingOperator
  | unmatchedPiece (first : String) (second : Option String)
  | illegalEscape (escape : String)
  | notMutable
  /-- A computation with whole numbers that leaves 64 bits or divides by zero. -/
  | arithmetic (doing : String) (left : Option Int64) (operator : String) (right : Int64)

def Fault.message : Fault → String
  | .argumentCount expected actual =>
    s!"An operator expected {expected} arguments, but got {actual}."
  | .expectedNumber v => s!"Expected a Value::Float or Value::Int, but got {v.described}."
  | .expectedBoolean v => s!"Expected a Value::Boolean, but got {v.described}."
  | .expectedNumberOrString v =>
    s!"Expected a Value::Number or a Value::String, but got {v.described}."
  | .expectedTuple v => s!"Expected a Value::Tuple, but got {v.described}."
  | .expectedTupleOf size v => s!"Expected a Value::Tuple of length {size}, but got {v.described}."
  | .expectedOneOf types v => s!"Expected one of [{types}], but got {v.described}."
  | .appendedToLeaf => "Tried to append a node to a leaf node."
  | .precedenceViolation => "Tried to append a node to another node with higher precedence."
  | .unboundVariable name =>
    "Variable identifier is not bound to anything by context: " ++ Value.escaped name ++ "."
  | .unboundFunction name =>
    "Function identifier is not bound to anything by context: " ++ Value.escaped name ++ "."
  | .typeCombination operator types =>
    s!"The operator {operator} was called with a wrong combination of types: [" ++
      ", ".intercalate types ++ "]"
  | .unmatchedOpen => "Found an unmatched opening parenthesis '('."
  | .unmatchedClose => "Found an unmatched closing parenthesis ')'."
  | .unmatchedQuote => "Found an unmatched double quote '\"'"
  | .unmatchedComment => "Error: unmatched inline comment"
  | .missingOperator =>
    "Found an opening parenthesis that is preceded by something that does not take any " ++
      "arguments on the right, or found a closing parenthesis that is succeeded by something " ++
      "that does not " ++
      "take any arguments on the left."
  | .unmatchedPiece first (some second) =>
    s!"Found a partial token '{first}' that should not be followed by '{second}'."
  | .unmatchedPiece first none =>
    s!"Found a partial token '{first}' that should be followed by another partial token."
  | .illegalEscape escape => s!"Illegal escape sequence: {escape}"
  | .notMutable => "Cannot manipulate context"
  | .arithmetic doing (some left) operator right =>
    s!"Error {doing} {left.toInt} {operator} {right.toInt}"
  | .arithmetic doing none operator right => s!"Error {doing} {operator}{right.toInt}"

end StepGraph.Formula
