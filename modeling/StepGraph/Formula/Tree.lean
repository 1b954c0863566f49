import StepGraph.Formula.Token

/-!
# Operator trees

The tokens of a formula are put into a tree one after the other.  A new operator goes below the last
operand of the tree as long as that operand binds less tightly, and else takes its place and has it
as its own first operand.  Commas and semicolons make sequences, which are kept on a stack while
they grow, and so are the insides of parentheses.

The operands of a node are listed last first, since the tree grows at its last operand.
-/

namespace StepGraph.Formula

/-- The operators at the nodes of a tree. -/
inductive Operator
  /-- The whole formula, or the inside of parentheses. -/
  | root
  | binary (op : BinaryOp)
  | neg
  | not
  | assign (op : Option BinaryOp)
  | tuple
  | chain
  | value (v : Value)
  | write (name : String)
  | read (name : String)
  | call (name : String)

namespace Operator

/-- How tightly an operator binds. -/
def precedence : Operator → Nat
  | .root => 200
  | .binary .exp => 120
  | .neg | .not => 110
  | .binary .mul | .binary .div | .binary .mod => 100
  | .binary .add | .binary .sub => 95
  | .binary .and => 75
  | .binary .or => 70
  | .binary _ => 80
  | .assign _ => 50
  | .tuple => 40
  | .chain => 0
  | .value _ | .write _ | .read _ => 200
  | .call _ => 190

/-- How many operands an operator has; `none` for sequences, which have any number. -/
def arity : Operator → Option Nat
  | .root | .neg | .not | .call _ => some 1
  | .binary _ | .assign _ => some 2
  | .tuple | .chain => none
  | .value _ | .write _ | .read _ => some 0

/-- Does the operator separate the members of a sequence? -/
def isSequence : Operator → Bool
  | .tuple | .chain => true
  | _ => false

def isRoot : Operator → Bool
  | .root => true
  | _ => false

/-- Is it the same kind of sequence? -/
def sameSequence : Operator → Operator → Bool
  | .tuple, .tuple | .chain, .chain => true
  | _, _ => false

/-- Does a row of such operators group to the right? -/
def groupsRight : Operator → Bool
  | .assign none | .call _ => true
  | _ => false

def isLeaf (o : Operator) : Bool := o.arity == some 0

/-- Has the operator one operand, which follows it? -/
def isUnary (o : Operator) : Bool := o.arity == some 1 && !o.isRoot

/-- Can the operator `inner` stand below `outer`, where it binds tighter or groups to the right? -/
def canStandBelow (outer inner : Operator) : Bool :=
  outer.precedence < inner.precedence || inner.isUnary ||
    (outer.precedence == inner.precedence && outer.groupsRight && inner.groupsRight)

end Operator

/-- A tree; the operands are listed last first. -/
inductive Tree
  | node (op : Operator) (operands : List Tree)

namespace Tree

def op : Tree → Operator
  | .node op _ => op

/-- The operands at the top, last first. -/
def operands : Tree → List Tree
  | .node _ operands => operands

def ofOperator (op : Operator) : Tree := .node op []

def emptyRoot : Tree := .node .root []

/-- The tree with one more operand at the end. -/
def push : Tree → Tree → Tree
  | .node op operands, t => .node op (t :: operands)

/-- Has the operator at the top more operands than it takes? -/
def isOverfull (t : Tree) : Bool :=
  match t.op.arity with
  | some n => n < t.operands.length
  | none => false

/-- Puts `t` below the operator `outer` in place of its operand `last`, which becomes an operand of
`t`; `rest` are the other operands. -/
def rotate (outer : Operator) (last : Tree) (rest : List Tree) (t : Tree) : Except Fault Tree :=
  if t.op.isLeaf then .error .appendedToLeaf
  else if outer.isRoot && (!rest.isEmpty || t.op.isRoot) then .error .missingOperator
  else if t.op.isRoot && (!t.operands.isEmpty || last.op.isRoot) then .error .missingOperator
  else .ok (.node outer (t.push last :: rest))

/-- Inserts a tree at the end; `top` says whether the tree it goes into is the whole one. -/
def insert (t : Tree) (top : Bool) : Tree → Except Fault Tree
  | .node op [] =>
    if top || op.canStandBelow t.op then
      if op.isLeaf then .error .appendedToLeaf
      else .ok (.node op [t])
    else .error .precedenceViolation
  | .node op (last :: rest) =>
    if top || op.canStandBelow t.op then
      if op.isLeaf then .error .appendedToLeaf
      else if op.arity == some (rest.length + 1) then
        if last.op.canStandBelow t.op then
          match insert t false last with
          | .ok last => .ok (.node op (last :: rest))
          | .error e => .error e
        else rotate op last rest t
      else .ok (.node op (t :: last :: rest))
    else .error .precedenceViolation

end Tree

/-- Folds the sequences at the top of the stack into the root below them. -/
def collapse : List Tree → Except Fault (List Tree)
  | [] => .error .unmatchedClose
  | [t] =>
    if t.op.isRoot then (if t.isOverfull then .error .missingOperator else .ok [t])
    else .error .unmatchedClose
  | t :: below :: stack =>
    if t.op.isRoot then
      if t.isOverfull then .error .missingOperator else .ok (t :: below :: stack)
    else if t.op.isSequence then
      if below.isOverfull then .error .missingOperator
      else collapse (below.push t :: stack)
    else if t.isOverfull then .error .missingOperator
    else .ok (below :: stack)
termination_by stack => stack.length

/-- Folds sequences that bind more tightly than `goal` below each other. -/
def collapseTo (goal : Operator) : List Tree → Tree → Except Fault (List Tree × Tree)
  | [], _ => .error .unmatchedClose
  | t :: stack, last =>
    if goal.precedence < t.op.precedence then collapseTo goal stack (t.push last)
    else .ok (t :: stack, last)

/-- Adds a separator to the tree at the top of the stack. -/
def addSeparator (op : Operator) (t : Tree) (stack : List Tree) : Except Fault (List Tree) :=
  if t.op.sameSequence op then .ok (t.push Tree.emptyRoot :: stack)
  else if t.op.isRoot then .ok (.node op [Tree.emptyRoot, t] :: Tree.emptyRoot :: stack)
  else if t.op.precedence < op.precedence then
    match t with
    | .node outer (last :: rest) =>
      .ok (.node op [Tree.emptyRoot, last] :: .node outer rest :: stack)
    | .node _ [] => .error .unmatchedClose
  else
    match collapseTo op stack t with
    | .ok (stack, t) => .ok (.node op [t] :: stack)
    | .error e => .error e

/-- Adds a tree to the one at the top of the stack. -/
def addTree (t : Tree) : List Tree → Except Fault (List Tree)
  | [] => .error .unmatchedClose
  | current :: stack =>
    if t.op.isSequence then addSeparator t.op current stack
    else if current.op.isSequence then
      match current with
      | .node outer (last :: rest) =>
        match Tree.insert t true last with
        | .ok last => .ok (.node outer (last :: rest) :: stack)
        | .error e => .error e
      | .node _ [] => .error .unmatchedClose
    else
      match Tree.insert t true current with
      | .ok current => .ok (current :: stack)
      | .error e => .error e

namespace Token

/-- Can the token be the end of an operand? -/
def endsOperand : Token → Bool
  | .closeParen | .name _ | .int _ | .float _ | .bool _ | .text _ => true
  | _ => false

/-- Can the token be the start of an operand? -/
def startsOperand : Token → Bool
  | .openParen | .name _ | .int _ | .float _ | .bool _ | .text _ => true
  | _ => false

def isAssignment : Token → Bool
  | .assign _ => true
  | _ => false

/-- The operator of a token that is no parenthesis; `afterOperand` says whether the token before it
ends an operand, `next` is the one after it. -/
def operator? (afterOperand : Bool) (next : Option Token) : Token → Option Operator
  | .binary op => some (.binary op)
  | .minus => some (if afterOperand then .binary .sub else .neg)
  | .not => some .not
  | .assign op => some (.assign op)
  | .openParen | .closeParen => none
  | .comma => some .tuple
  | .semicolon => some .chain
  | .name n =>
    match next with
    | some t =>
      some (if t.isAssignment then .write n else if t.startsOperand then .call n else .read n)
    | none => some (.read n)
  | .int n => some (.value (.int n))
  | .float x => some (.value (.float x))
  | .bool b => some (.value (.bool b))
  | .text s => some (.value (.text s))

end Token

/-- Puts tokens into the trees on a stack. -/
def build : List Tree → Bool → List Token → Except Fault (List Tree)
  | stack, _, [] => .ok stack
  | stack, afterOperand, t :: ts =>
    let next : Except Fault (List Tree) :=
      match t with
      | .openParen => .ok (Tree.emptyRoot :: stack)
      | .closeParen =>
        match stack with
        | _ :: _ :: _ =>
          match collapse stack with
          | .ok (inside :: stack) => addTree inside stack
          | .ok [] => .error .unmatchedClose
          | .error e => .error e
        | _ => .error .unmatchedClose
      | t =>
        match t.operator? afterOperand ts.head? with
        | some op => addTree (Tree.ofOperator op) stack
        | none => .ok stack
    match next with
    | .ok stack => build stack t.endsOperand ts
    | .error e => .error e

def parse (text : String) : Except Fault Tree := do
  let ts ← tokens text
  let stack ← build [Tree.emptyRoot] false ts
  match ← collapse stack with
  | [t] => return t
  | _ => throw .unmatchedOpen

end StepGraph.Formula
