import MiniPascal.Tree

/-!
# Intermediate Code

What programs are lowered to. Loops over a range are gone, array accesses have all their indices in
one list, and parentheses have no trace. `Code.toTree` gives code as a dictionary.
-/

namespace MiniPascal

/-- Intermediate code. Parts that are copied from a program are kept as trees. -/
inductive Code where
  /-- Nothing: the node has no code. -/
  | nothing
  /-- An integer or a truth value. -/
  | integer (value : Tree)
  | string (value : String)
  | char (code : Nat)
  | name (name : Tree)
  | element (array : String) (indices : List Code)
  | field (record : Code) (name : Tree)
  | compare (operator : Tree) (left right : Code)
  | binary (operator : Tree) (left right : Code)
  | functionCall (name : Tree) (arguments : List Code)
  | procedureCall (name : Tree) (arguments : List Code)
  | assign (target value : Code)
  | block (statements : List Code)
  | whileLoop (condition body : Code)
  | ifElse (condition thenBranch elseBranch : Code)
  | routine (isProcedure : Bool) (name : Tree) (parameters : List String) (body : Code)
      (result : Tree)

namespace Code

mutual

def toTree : Code → Tree
  | nothing => .null
  | integer value => .dict [("type", .text "Integer"), ("value", value)]
  | string value => .dict [("type", .text "String"), ("value", .text value)]
  | char code => .dict [("type", .text "Char"), ("value", .int code)]
  | name n => .dict [("type", .text "Variable"), ("name", n)]
  | element array indices =>
    .dict [("type", .text "ArrayAccess"), ("array", .text array),
      ("indices", .list (toTrees indices))]
  | field record selected =>
    .dict [("type", .text "RecordFieldAccess"), ("record", record.toTree), ("field", selected)]
  | compare operator left right =>
    .dict [("type", .text "BinaryExpression"), ("operator", operator), ("left", left.toTree),
      ("right", right.toTree)]
  | binary operator left right =>
    .dict [("type", .text "BinaryOperation"), ("operator", operator), ("left", left.toTree),
      ("right", right.toTree)]
  | functionCall called arguments =>
    .dict [("type", .text "FunctionCall"), ("name", called),
      ("arguments", .list (toTrees arguments))]
  | procedureCall called arguments =>
    .dict [("type", .text "ProcedureCall"), ("name", called),
      ("arguments", .list (toTrees arguments))]
  | assign target value =>
    .dict [("type", .text "Assignment"), ("target", target.toTree), ("value", value.toTree)]
  | block statements =>
    .dict [("type", .text "Block"), ("statements", .list (toTrees statements))]
  | whileLoop condition body =>
    .dict [("type", .text "While"), ("condition", condition.toTree), ("body", body.toTree)]
  | ifElse condition thenBranch elseBranch =>
    .dict [("type", .text "If"), ("condition", condition.toTree), ("then", thenBranch.toTree),
      ("else", elseBranch.toTree)]
  | routine isProcedure declared parameters body result =>
    .dict [("type", .text (if isProcedure then "ProcedureDeclaration" else "FunctionDeclaration")),
      ("name", declared), ("parameters", .list (parameters.map .text)), ("block", body.toTree),
      ("return_type", result)]

def toTrees : List Code → List Tree
  | [] => []
  | c :: cs => c.toTree :: toTrees cs

end

def bodyTree (statements : List Code) : Tree :=
  .dict [("type", .text "block"), ("statements", .list (toTrees statements))]

end Code

end MiniPascal
