/-!
# Trees

A tree is what the later stages work on: the nodes of a program, and the plain data that their
parts, the tables of names and the generated code are made of. Trees are open: a part of a node may
hold any tree, also one that no program has there, because trees can be built by hand. What a stage
does with a part that does not fit is therefore part of its definition, and `Fault` names what can
go wrong.
-/

namespace MiniPascal

/-- What goes wrong when a tree does not have the shape that a step needs. -/
inductive Fault where
  /-- The tree has no part, or no operation, of the name in question. -/
  | noSuchPart
  /-- The operation does not apply to trees of this kind. -/
  | wrongKind
  /-- A dictionary has no entry for a key. -/
  | missingKey
  /-- A position lies beyond the end of a sequence. -/
  | outOfRange
  /-- A text or a sequence does not hold a value of the form that is needed. -/
  | badValue
  /-- A division by zero. -/
  | divisionByZero
  /-- A number is too large for a floating-point number or for a count. -/
  | tooLarge
  /-- A text or a list would be too long to be held. -/
  | outOfMemory
  /-- Something is used before it has been given a value. -/
  | unset
  /-- Something refers to itself in a circle. -/
  | circular
  deriving DecidableEq, Repr

/-- Plain data and the nodes of a program. -/
inductive Tree where
  /-- The absent value. -/
  | null
  | bool (value : Bool)
  | int (value : Int)
  | real (value : Float)
  | text (value : String)
  | list (items : List Tree)
  | tuple (items : List Tree)
  /-- Entries in the order in which their keys were first set. -/
  | dict (entries : List (String × Tree))
  /-- A dictionary of which not all keys are texts. -/
  | table (entries : List (Tree × Tree))
  /-- A value of a rare kind that is only shown: the name of its kind, its written form, and whether
  it is empty or zero. -/
  | shown (kind written : String) (isEmpty : Bool)
  /-- A table of names, by its number. -/
  | scope (number : Nat)
  /-- A node without parts. -/
  | bare
  | program (name block : Tree)
  | block (declarations body : Tree)
  | declarations (items : Tree)
  | constDecl (name value : Tree)
  /-- A variable. Names declared together share their type, which then belongs to the name before as
  well. -/
  | varDecl (name type initial : Tree) (sharesType : Bool)
  | typeName (name range : Tree)
  | parameter (name type mode : Tree)
  | arrayType (dimensions element initial : Tree)
  | arrayAccess (array index : Tree)
  | routine (kind name parameters block result : Tree)
  | compound (statements : Tree)
  /-- A statement without parts. -/
  | statement
  | assign (target value : Tree)
  | ifElse (condition thenBranch elseBranch : Tree)
  | whileLoop (condition body : Tree)
  | forLoop (name start direction stop body : Tree)
  | procedureCall (name arguments : Tree)
  | functionCall (name arguments : Tree)
  | expression (left operator right : Tree)
  | simple (terms operator : Tree)
  | term (factors operator : Tree)
  | factor (value name inner negated : Tree)
  | relational (operator : Tree)
  | typeDecl (name type : Tree)
  | recordType (fields : Tree)
  | recordInit (fields : Tree)
  | fieldAccess (record field : Tree)
  deriving Inhabited

namespace Tree

def kindName : Tree → String
  | null => "NoneType"
  | bool _ => "bool"
  | int _ => "int"
  | real _ => "float"
  | text _ => "str"
  | list _ => "list"
  | tuple _ => "tuple"
  | dict _ | table _ => "dict"
  | shown kind _ _ => kind
  | scope _ => "SymbolTable"
  | bare => "AstNode"
  | program .. => "ProgramNode"
  | block .. => "BlockNode"
  | declarations .. => "DeclarationNode"
  | constDecl .. => "ConstDeclarationNode"
  | varDecl .. => "VarDeclarationNode"
  | typeName .. => "TypeNode"
  | parameter .. => "ParameterNode"
  | arrayType .. => "ArrayTypeNode"
  | arrayAccess .. => "ArrayAccessNode"
  | routine .. => "ProcedureOrFunctionDeclarationNode"
  | compound .. => "CompoundStatementNode"
  | statement => "StatementNode"
  | assign .. => "AssignStatementNode"
  | ifElse .. => "IfStatementNode"
  | whileLoop .. => "WhileStatementNode"
  | forLoop .. => "ForStatementNode"
  | procedureCall .. => "ProcedureCallNode"
  | functionCall .. => "FunctionCallNode"
  | expression .. => "ExpressionNode"
  | simple .. => "SimpleExpressionNode"
  | term .. => "TermNode"
  | factor .. => "FactorNode"
  | relational .. => "RelationalOperatorNode"
  | typeDecl .. => "TypeDeclarationNode"
  | recordType .. => "RecordTypeNode"
  | recordInit .. => "RecordInitializerNode"
  | fieldAccess .. => "RecordFieldAccessNode"

def isPlain : Tree → Bool
  | null | bool _ | int _ | real _ | text _ | list _ | tuple _ | dict _ | table _ | shown .. => true
  | _ => false

def kindDisplay (t : Tree) : String :=
  let home :=
    if t.isPlain then ""
    else if t matches scope _ then "semantic.symbol_table."
    else "parser.ast_node."
  s!"<class '{home}{t.kindName}'>"

/-- The named parts of a node. Plain data has none. -/
def parts : Tree → List (String × Tree)
  | program name main => [("program_name", name), ("children", list [main])]
  | bare => [("children", list [])]
  | block decls body => [("declarations", decls), ("compound_statement", body)]
  | declarations items => [("declarations", items)]
  | constDecl name value => [("identifier", name), ("value", value)]
  | varDecl name type initial _ =>
    [("identifier", name), ("var_type", type), ("init_value", initial)]
  | typeName name range => [("identifier_type", name), ("array_range", range)]
  | parameter name type mode => [("identifier", name), ("type_node", type), ("pass_mode", mode)]
  | arrayType dimensions element initial =>
    [("dimensions", dimensions), ("element_type", element), ("initial_values", initial)]
  | arrayAccess array index => [("array_name", array), ("index_expr", index)]
  | routine kind name parameters body result =>
    [("kind", kind), ("identifier", name), ("parameters", parameters), ("block", body),
      ("return_type", result)]
  | compound statements => [("statements", statements)]
  | assign target value => [("identifier", target), ("expression", value)]
  | ifElse condition thenBranch elseBranch =>
    [("condition", condition), ("then_statement", thenBranch), ("else_statement", elseBranch)]
  | whileLoop condition body => [("condition", condition), ("body", body)]
  | forLoop name start direction stop body =>
    [("identifier", name), ("start_expr", start), ("direction", direction), ("end_expr", stop),
      ("body", body)]
  | procedureCall name arguments | functionCall name arguments =>
    [("identifier", name), ("arguments", arguments)]
  | expression left operator right =>
    [("left", left), ("relational_operator", operator), ("right", right)]
  | simple terms operator => [("terms", terms), ("additive_operator", operator)]
  | term factors operator => [("factors", factors), ("multiplicative_operator", operator)]
  | factor value name inner negated =>
    [("value", value), ("identifier", name), ("sub_expression", inner), ("is_not", negated)]
  | relational operator => [("operator", operator)]
  | typeDecl name type => [("name", name), ("type_node", type)]
  | recordType fields | recordInit fields => [("fields", fields)]
  | fieldAccess record field => [("record_obj", record), ("field_name", field)]
  | _ => []

def part (t : Tree) (name : String) : Except Fault Tree :=
  match t.parts.lookup name with
  | some p => .ok p
  | none => .error .noSuchPart

/-- Whether a tree counts as true: absent, zero and empty values do not. -/
def isTruthy : Tree → Bool
  | null => false
  | bool b => b
  | int n => n != 0
  | real x => x != 0
  | text s => !s.isEmpty
  | list xs | tuple xs => !xs.isEmpty
  | dict es | table es => !es.isEmpty
  | shown _ _ isEmpty => !isEmpty
  | _ => true

def isNull : Tree → Bool
  | null => true
  | _ => false

/-- The integer that a tree is. Truth values count as 0 and 1. -/
def toInt? : Tree → Option Int
  | int n => some n
  | bool b => some (if b then 1 else 0)
  | _ => none

/-- Whether a tree is an integer or a truth value. -/
def isInt (t : Tree) : Bool := t.toInt?.isSome

def isText : Tree → Bool
  | text _ => true
  | _ => false

/-- The greatest number that can count anything. -/
def maxCount : Nat := Nat.pow 2 63 - 1

/-- The greatest length that texts and lists are allowed to have. -/
def maxLength : Nat := Nat.pow 2 36

def isSequence : Tree → Bool
  | list _ | tuple _ => true
  | _ => false

def isDict : Tree → Bool
  | dict _ | table _ => true
  | _ => false

mutual

def isKey : Tree → Bool
  | list _ => false
  | tuple items => areKeys items
  | dict _ => false
  | table _ => false
  | shown kind _ _ => kind != "set"
  | _ => true

def areKeys : List Tree → Bool
  | [] => true
  | item :: rest => isKey item && areKeys rest

end

/-- The elements that a walk over a tree meets: items, characters of a text, or keys. -/
def elements : Tree → Except Fault (List Tree)
  | list xs | tuple xs => .ok xs
  | text s => .ok (s.toList.map fun c => text c.toString)
  | dict es => .ok (es.map fun e => text e.1)
  | table es => .ok (es.map (·.1))
  | shown kind _ true => if kind = "complex" then .error .wrongKind else .ok []
  | _ => .error .wrongKind

def size (t : Tree) : Except Fault Nat := do return (← t.elements).length

def entryOfText? (key : String) : List (Tree × Tree) → Option Tree
  | [] => none
  | (text s, value) :: rest => if s = key then some value else entryOfText? key rest
  | _ :: rest => entryOfText? key rest

def entryOfWhole? (n : Int) : List (Tree × Tree) → Option Tree
  | [] => none
  | (key, value) :: rest => if key.toInt? = some n then some value else entryOfWhole? n rest

/-- The entry of a dictionary for a key, if it has one. Only dictionaries can be asked. -/
def get? (t : Tree) (key : String) : Except Fault (Option Tree) :=
  match t with
  | dict es => .ok (es.lookup key)
  | table es => .ok (entryOfText? key es)
  | _ => .error .noSuchPart

/-- The entry of a dictionary for a key, or the absent value. -/
def get (t : Tree) (key : String) : Except Fault Tree := do return (← t.get? key).getD null

def entry (t : Tree) (key : String) : Except Fault Tree :=
  match t with
  | dict es => found (es.lookup key)
  | table es => found (entryOfText? key es)
  | _ => .error .wrongKind
where
  /-- An entry that must be there. -/
  found : Option Tree → Except Fault Tree
    | some v => .ok v
    | none => .error .missingKey

/-- The element of a sequence at a position. -/
def item (t : Tree) (i : Nat) : Except Fault Tree :=
  match t with
  | dict _ => .error .missingKey
  | table es =>
    match entryOfWhole? i es with
    | some v => .ok v
    | none => .error .missingKey
  | _ => do
    match (← t.elements)[i]? with
    | some v => .ok v
    | none => .error .outOfRange

def pair (t : Tree) : Except Fault (Tree × Tree) := do
  match ← t.elements with
  | [a, b] => .ok (a, b)
  | _ => .error .badValue

/-- Entries with the entry for `key` set: an old key keeps its place, a new one comes last. -/
def setEntry (key : String) (value : Tree) : List (String × Tree) → List (String × Tree)
  | [] => [(key, value)]
  | (k, v) :: rest => if k = key then (k, value) :: rest else (k, v) :: setEntry key value rest

end Tree

end MiniPascal
