import StepGraph.Decimal.Layout
import StepGraph.Formula.Error
import StepGraph.Text.Character

/-!
# Tokens of a formula

A text is first cut into pieces: single signs, quoted texts, and runs of other characters, which are
words.  Comments are left out, and what stands on the two sides of one belongs together as if it
were not there.  Then pieces are joined into tokens, two signs into one operator and a word, a sign
and a word into a number such as `1e-3`, and words become numbers, truth values or names.
-/

namespace StepGraph.Formula

/-- The operators between two operands, or in front of one. -/
inductive Sign
  | plus
  | minus
  | star
  | slash
  | percent
  | hat
  | equals
  | bang
  | greater
  | less
  | ampersand
  | bar
deriving DecidableEq

def Sign.char : Sign → Char
  | .plus => '+'
  | .minus => '-'
  | .star => '*'
  | .slash => '/'
  | .percent => '%'
  | .hat => '^'
  | .equals => '='
  | .bang => '!'
  | .greater => '>'
  | .less => '<'
  | .ampersand => '&'
  | .bar => '|'

def Sign.ofChar? : Char → Option Sign
  | '+' => some .plus
  | '-' => some .minus
  | '*' => some .star
  | '/' => some .slash
  | '%' => some .percent
  | '^' => some .hat
  | '=' => some .equals
  | '!' => some .bang
  | '>' => some .greater
  | '<' => some .less
  | '&' => some .ampersand
  | '|' => some .bar
  | _ => none

/-- A piece of a formula. -/
inductive Piece
  | openParen
  | closeParen
  | comma
  | semicolon
  | quoted (text : String)
  | word (text : String)
  | gap
  | sign (s : Sign)

def Piece.shown : Piece → String
  | .openParen => "("
  | .closeParen => ")"
  | .comma => ","
  | .semicolon => ";"
  | .quoted text => Value.escaped text
  | .word text => text
  | .gap => " "
  | .sign s => s.char.toString

/-- The piece a single character is. -/
def Piece.ofChar (c : Char) : Piece :=
  match c with
  | '(' => .openParen
  | ')' => .closeParen
  | ',' => .comma
  | ';' => .semicolon
  | c =>
    match Sign.ofChar? c with
    | some s => .sign s
    | none => if Text.isBlank c then .gap else .word c.toString

/-- Reads a quoted text whose opening quote has been read; `done` holds its characters so far, last
first. -/
def readQuoted (done : List Char) : List Char → Except Fault (String × List Char)
  | [] => .error .unmatchedQuote
  | '"' :: cs => .ok (String.ofList done.reverse, cs)
  | '\\' :: '"' :: cs => readQuoted ('"' :: done) cs
  | '\\' :: '\\' :: cs => readQuoted ('\\' :: done) cs
  | '\\' :: c :: _ => .error (.illegalEscape ("\\" ++ c.toString))
  | '\\' :: [] => .error (.illegalEscape "\\")
  | c :: cs => readQuoted (c :: done) cs

/-- What follows the end of a comment that is closed by a star and a slash. -/
def afterComment? : List Char → Option (List Char)
  | '*' :: '/' :: cs => some cs
  | _ :: cs => afterComment? cs
  | [] => none

/-- Adds a piece behind those so far, listed last first; two words side by side are one. -/
def addPiece : List Piece → Piece → List Piece
  | .word a :: done, .word b => .word (a ++ b) :: done
  | done, p => p :: done

/-- Cuts a text into pieces, which are listed last first. -/
def cutFrom : Nat → List Piece → List Char → Except Fault (List Piece)
  | 0, done, _ => .ok done
  | _ + 1, done, [] => .ok done
  | fuel + 1, done, '"' :: cs => do
    let (text, cs) ← readQuoted [] cs
    cutFrom fuel (.quoted text :: done) cs
  | fuel + 1, done, '/' :: '/' :: cs => cutFrom fuel done ((cs.dropWhile (· != '\n')).drop 1)
  | fuel + 1, done, '/' :: '*' :: cs =>
    match afterComment? cs with
    | some cs => cutFrom fuel done cs
    | none => .error .unmatchedComment
  | fuel + 1, done, c :: cs => cutFrom fuel (addPiece done (.ofChar c)) cs

def cut (text : String) : Except Fault (List Piece) :=
  (cutFrom (text.toList.length + 1) [] text.toList).map List.reverse

/-- The operators that take what stands on both sides. -/
inductive BinaryOp
  | add
  | sub
  | mul
  | div
  | mod
  | exp
  | eq
  | neq
  | gt
  | lt
  | geq
  | leq
  | and
  | or
deriving DecidableEq

/-- A token of a formula.  `assign` is an assignment, `none` for the plain one and an operator for
one that combines the new value with the old. -/
inductive Token
  | binary (op : BinaryOp)
  /-- A minus sign, before it is known whether it has a left operand. -/
  | minus
  | not
  | assign (op : Option BinaryOp)
  | openParen
  | closeParen
  | comma
  | semicolon
  | name (text : String)
  | int (n : Int64)
  | float (x : Float)
  | bool (b : Bool)
  | text (s : String)

/-- Reads a whole number: decimal, or behind `0x`, `0o` or `0b`. -/
def readInt? (cs : List Char) : Option Int64 :=
  let radix? (radix : Nat) (cs : List Char) : Option Int64 :=
    (Decimal.natural? radix cs).bind fun n => Decimal.fitInt64? (Int.ofNat n)
  match cs with
  | '0' :: 'x' :: cs => radix? 16 cs
  | '0' :: 'o' :: cs => radix? 8 cs
  | '0' :: 'b' :: cs => radix? 2 cs
  | cs => radix? 10 cs

/-- The number or truth value a word stands for. -/
def readWord? (word : String) : Option Token :=
  match readInt? word.toList with
  | some n => some (.int n)
  | none =>
    match Decimal.readFloat? word.toList with
    | some x => some (.float x)
    | none =>
      if word = "true" then some (.bool true)
      else if word = "false" then some (.bool false)
      else none

/-- The number that a word, a sign and another piece stand for together. -/
def readSplit? (word : String) (next : List Piece) : Option Float :=
  match next with
  | .sign .plus :: p :: _ => Decimal.readFloat? (word ++ "+" ++ p.shown).toList
  | .sign .minus :: p :: _ => Decimal.readFloat? (word ++ "-" ++ p.shown).toList
  | _ => none

/-- The operator of a sign that can be joined with `=` into an assignment. -/
def Sign.combines? : Sign → Option BinaryOp
  | .plus => some .add
  | .minus => some .sub
  | .star => some .mul
  | .slash => some .div
  | .percent => some .mod
  | .hat => some .exp
  | _ => none

/-- The token at a sign, and how many more pieces it takes. -/
def tokenOfSign (s : Sign) (next : List Piece) : Except Fault (Token × Nat) :=
  let followed (t : Sign) : Bool := match next with
    | .sign s :: _ => s == t
    | _ => false
  let doubled (op : BinaryOp) : Except Fault (Token × Nat) :=
    match next with
    | .sign t :: rest =>
      if t = s then
        match rest with
        | .sign .equals :: _ => .ok (.assign (some op), 2)
        | _ => .ok (.binary op, 1)
      else .error (.unmatchedPiece s.char.toString (some t.char.toString))
    | p :: _ => .error (.unmatchedPiece s.char.toString (some p.shown))
    | [] => .error (.unmatchedPiece s.char.toString none)
  match s with
  | .equals => .ok (if followed .equals then (.binary .eq, 1) else (.assign none, 0))
  | .bang => .ok (if followed .equals then (.binary .neq, 1) else (.not, 0))
  | .greater => .ok (if followed .equals then (.binary .geq, 1) else (.binary .gt, 0))
  | .less => .ok (if followed .equals then (.binary .leq, 1) else (.binary .lt, 0))
  | .ampersand => doubled .and
  | .bar => doubled .or
  | .minus => .ok (if followed .equals then (.assign (some .sub), 1) else (.minus, 0))
  | s =>
    match s.combines? with
    | some op => .ok (if followed .equals then (.assign (some op), 1) else (.binary op, 0))
    | none => .ok (.not, 0)

/-- Joins pieces into tokens; the first `skip` of them belong to the token before. -/
def join : Nat → List Piece → Except Fault (List Token)
  | _, [] => .ok []
  | skip + 1, _ :: ps => join skip ps
  | 0, p :: ps => do
    match p with
    | .openParen => return .openParen :: (← join 0 ps)
    | .closeParen => return .closeParen :: (← join 0 ps)
    | .comma => return .comma :: (← join 0 ps)
    | .semicolon => return .semicolon :: (← join 0 ps)
    | .quoted s => return .text s :: (← join 0 ps)
    | .gap => join 0 ps
    | .word w =>
      match readWord? w with
      | some t => return t :: (← join 0 ps)
      | none =>
        match readSplit? w ps with
        | some x => return .float x :: (← join 2 ps)
        | none => return .name w :: (← join 0 ps)
    | .sign s =>
      let (t, skip) ← tokenOfSign s ps
      return t :: (← join skip ps)

def tokens (text : String) : Except Fault (List Token) := do
  let pieces ← cut text
  join 0 pieces

end StepGraph.Formula
