import MiniPascal.Tree.Operator

/-!
# Evaluating Expressions

The value of an expression tree when its names stand for the values that a context gives.

A list is changed where it stands: joining to a list, or repeating it, changes the list itself, so
whoever refers to it later meets the changed list. A step therefore results in an operand, which is
either a value or the place of one, and a memory says what the places hold.
-/

namespace MiniPascal.Tree

/-- Where a value stands that can be met more than once. -/
inductive Place where
  /-- It belongs to a name of the context. -/
  | named (name : String)
  /-- It is written in the expression, at the end of a path from the root. -/
  | written (path : List Nat)
  deriving DecidableEq, Repr

/-- What a step results in. -/
inductive Operand where
  | value (t : Tree)
  /-- Whatever stands at a place. -/
  | held (place : Place)

namespace Operand

def place? : Operand → Option Place
  | value _ => none
  | held place => some place

def identical (a b : Operand) : Bool := a.place?.isSome && a.place? == b.place?

end Operand

/-- What the places hold. -/
structure Memory where
  /-- The values of the names. -/
  context : List (String × Tree)
  /-- The lists written in the expression that have been met. -/
  written : List (List Nat × Tree)

namespace Memory

def at? (memory : Memory) : Place → Option Tree
  | .named name => memory.context.lookup name
  | .written path => memory.written.lookup path

def put (memory : Memory) (t : Tree) : Place → Memory
  | .named name => { memory with context := setEntry name t memory.context }
  | .written path => { memory with written := (path, t) :: memory.written }

def valueOf (memory : Memory) : Operand → Tree
  | .value t => t
  | .held place => (memory.at? place).getD null

end Memory

/-- A step of the evaluation. -/
abbrev Evaluation := StateT Memory (Except Fault)

namespace Evaluation

/-- A value written in the expression at the end of a path. A list stands there. -/
def literal (path : List Nat) (t : Tree) : Evaluation Operand := fun memory =>
  match t with
  | list _ =>
    let place := Place.written path
    .ok (.held place, if (memory.at? place).isSome then memory else memory.put t place)
  | _ => .ok (.value t, memory)

/-- The value of a name. Numbers, truth values and texts are met as they are. -/
def ofName : Tree → Evaluation Operand
  | text name => fun memory =>
    match memory.context.lookup name with
    | none => .error .missingKey
    | some t =>
      match t with
      | null | bool _ | int _ | real _ | text _ => .ok (.value t, memory)
      | _ => .ok (.held (.named name), memory)
  | t => throw (if t.isKey then .missingKey else .wrongKind)

/-- Applies an operator, if it is one; it is told whether the two operands are one and the same. A
list that results from a list at a place is put there. -/
def operate? (operation : Bool → Tree → Tree → Option (Except Fault Tree)) (left right : Operand) :
    Evaluation (Option Operand) := fun memory =>
  match operation (left.identical right) (memory.valueOf left) (memory.valueOf right) with
  | none => .ok (none, memory)
  | some (.error fault) => .error fault
  | some (.ok result) =>
    match left, result with
    | .held place, list xs => .ok (some left, memory.put (list xs) place)
    | _, _ => .ok (some (.value result), memory)

/-- Applies an additive operator. Operators that are not additive leave the left operand. -/
def add (operator : Tree) (left right : Operand) : Evaluation Operand := do
  return (← operate? (fun _ => applyAdditive? operator) left right).getD left

/-- Applies a relational operator. Operators that are not relational leave the left operand. -/
def relate (operator : Tree) (left right : Operand) : Evaluation Operand := do
  return (← operate? (applyRelational? · operator) left right).getD left

end Evaluation

open Evaluation

mutual

def operandAt (path : List Nat) : Tree → Evaluation Operand
  | expression left operator right => do
    let l ← operandAt (0 :: path) left
    if right.isTruthy then relate operator l (← operandAt (1 :: path) right)
    else return l
  | simple terms _ => sumAt path terms
  | term factors _ => productAt path factors
  | factor value name inner negated =>
    if !value.isNull then literal path value
    else if !name.isNull then ofName name
    else if !inner.isNull then operandAt (0 :: path) inner
    -- A negation without an operand.
    else if negated.isTruthy then throw .noSuchPart
    else return .value null
  | relational _ => return .value null
  -- Statements are run without a context.
  | statement | assign .. | ifElse .. | whileLoop .. | forLoop .. => throw .wrongKind
  | _ => throw .noSuchPart

def sumAt (path : List Nat) : Tree → Evaluation Operand
  | list [] | tuple [] => throw .outOfRange
  | list (t :: rest) | tuple (t :: rest) =>
    do addTerms path (← operandAt (rest.length :: path) t) rest
  | text s => throw (if s.isEmpty then .outOfRange else .noSuchPart)
  | dict _ => throw .missingKey
  | _ => throw .wrongKind

def addTerms (path : List Nat) (left : Operand) : List Tree → Evaluation Operand
  | [] => return left
  | [_] => throw .outOfRange
  | operator :: t :: rest => do
    let right ← operandAt (rest.length :: path) t
    addTerms path (← add operator left right) rest

def productAt (path : List Nat) : Tree → Evaluation Operand
  | list [] | tuple [] => throw .outOfRange
  | list (t :: rest) => do multiplyFactors path true (← operandAt (rest.length :: path) t) rest
  | tuple (t :: rest) => do multiplyFactors path false (← operandAt (rest.length :: path) t) rest
  | text s => throw (if s.isEmpty then .outOfRange else .noSuchPart)
  | dict _ => throw .missingKey
  | _ => throw .wrongKind

/-- Multiplies an operand by further factors, each after its operator. From an operator on that is
not multiplicative, the rest counts as additive, provided that it is a list; the factor after that
operator is then evaluated anew. -/
def multiplyFactors (path : List Nat) (isList : Bool) (left : Operand) :
    List Tree → Evaluation Operand
  | [] => return left
  | [_] => throw .outOfRange
  | operator :: t :: rest => do
    let right ← operandAt (rest.length :: path) t
    match ← operate? (fun _ => applyMultiplicative? operator) left right with
    | some product => multiplyFactors path isList product rest
    | none =>
      if isList then
        let again ← operandAt (rest.length :: path) t
        addTerms path (← add operator left again) rest
      else throw .wrongKind

end

def evaluate (context : List (String × Tree)) (t : Tree) : Except Fault Tree := do
  let (operand, memory) ← (operandAt [] t).run { context, written := [] }
  return memory.valueOf operand

/-- What running a node without a context gives: only statements and relational operators can be
run so, and they do nothing. -/
def run : Tree → Except Fault Tree
  | statement | assign .. | ifElse .. | whileLoop .. | forLoop .. => .ok null
  | expression .. | simple .. | term .. | factor .. | relational .. => .error .wrongKind
  | _ => .error .noSuchPart

end MiniPascal.Tree
