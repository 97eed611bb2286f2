import MiniPascal.Real.Shortest
import MiniPascal.Text.Quoted
import MiniPascal.Tree.Compare

/-!
# The Written Form of Trees

Reports and error texts show trees in two forms: plain, where a text stands as it is, and quoted,
where a text stands between quotes. Inside lists, tuples and dictionaries texts are always quoted;
inside nodes they never are. Statements and types are written much as in a program, expressions by
the name of their kind alone.

What a table says about a name is a dictionary, the entry of the name, and its key is a plain form.
The entry of a variable or a constant has information on its value, the entry of a record type is
itself of the type `record`, and the entry of a parameter is of the kind `parameter`.
-/

namespace MiniPascal.Tree

def commas (forms : List String) : String := ", ".intercalate forms

def renderCharPair (s : String) : Except Fault String :=
  match s.toList with
  | [a, b] => .ok (a.toString ++ ": " ++ b.toString)
  | _ => .error .badValue

mutual

/-- The written form of a tree, texts being quoted if `quoted` is set. -/
def render (quoted : Bool) : Tree → Except Fault String
  | null => .ok "None"
  | bool b => .ok (if b then "True" else "False")
  | int n => .ok (toString n)
  | real x => .ok (Real.shortest x)
  | text s => .ok (if quoted then Text.quote s else s)
  | list xs => do return "[" ++ commas (← renderItems xs) ++ "]"
  | tuple [x] => do return "(" ++ (← render true x) ++ ",)"
  | tuple xs => do return "(" ++ commas (← renderItems xs) ++ ")"
  | dict es => do return "\x7b" ++ commas (← renderEntries es) ++ "\x7d"
  | table es => do return "\x7b" ++ commas (← renderTable es) ++ "\x7d"
  | shown _ written _ => .ok written
  | scope _ => .ok "<semantic.symbol_table.SymbolTable object at 0x0>"
  | bare => .ok "AstNode()"
  | program _ main => do return "ProgramNode(" ++ (← render false main) ++ ")"
  | block decls body => do
    let first ← if decls.isTruthy then (do return [← render false decls]) else .ok []
    return "BlockNode(" ++ commas (first ++ [← render false body]) ++ ")"
  | declarations items => do
    let count ← items.size
    let all ← render false items
    return "DeclarationNode(" ++ commas (List.replicate count all) ++ ")"
  | constDecl .. => .ok "ConstDeclarationNode()"
  | varDecl .. => .ok "VarDeclarationNode()"
  | typeName name range => do
    if range.isTruthy then
      return (← render false name) ++ "[" ++ (← render false range) ++ "]"
    else
      match name with
      | text s => return s
      | _ => throw .wrongKind
  | parameter name type mode => do
    let start ← if mode.isTruthy then (do return (← render false mode) ++ " ") else .ok ""
    return start ++ (← render false name) ++ ": " ++ (← render false type)
  | arrayType dimensions element initial => do
    return "ArrayTypeNode(dimensions=" ++ (← render false dimensions) ++
      ", element_type=" ++ (← render false element) ++
      ", initial_values=" ++ (← render false initial) ++ ")"
  | arrayAccess array index => do
    return (← render false array) ++ "[" ++ (← render false index) ++ "]"
  | routine kind name parameters body _ => do
    let given ← if parameters.isTruthy then renderElements parameters else .ok []
    return (← render false kind) ++ " " ++ (← render false name) ++ "(" ++ commas given ++ ") " ++
      (← render false body)
  | compound statements => do return "BEGIN " ++ commas (← renderElements statements) ++ " END"
  | statement => .ok "StatementNode()"
  | assign target value => do return (← render false target) ++ " := " ++ (← render false value)
  | ifElse condition thenBranch elseBranch => do
    let last ←
      if elseBranch.isTruthy then (do return " ELSE " ++ (← render false elseBranch)) else .ok ""
    return "IF " ++ (← render false condition) ++ " THEN " ++ (← render false thenBranch) ++ last
  | whileLoop condition body => do
    return "WHILE " ++ (← render false condition) ++ " DO " ++ (← render false body)
  | forLoop name start direction stop body => do
    return "FOR " ++ (← render false name) ++ " := " ++ (← render false start) ++ " " ++
      (← render false direction) ++ " " ++ (← render false stop) ++ " DO " ++ (← render false body)
  | procedureCall name arguments => do
    let given ← if arguments.isTruthy then renderElements arguments else .ok []
    return (← render false name) ++ "(" ++ commas given ++ ")"
  | functionCall name arguments => do
    let given ← renderElements arguments
    return (← render false name) ++ "(" ++ commas given ++ ")"
  | expression .. => .ok "ExpressionNode()"
  | simple .. => .ok "SimpleExpressionNode()"
  | term .. => .ok "TermNode()"
  | factor .. => .ok "FactorNode()"
  | relational .. => .ok "RelationalOperatorNode()"
  | typeDecl name type => do return (← render false name) ++ " = " ++ (← render false type)
  | recordType fields => do return "record " ++ "; ".intercalate (← renderFields fields) ++ " end"
  | recordInit fields => do return "<RecordInit " ++ "; ".intercalate (← renderFields fields) ++ ">"
  | fieldAccess record field => do
    return (← render false record) ++ "." ++ (← render false field)

def renderItems : List Tree → Except Fault (List String)
  | [] => .ok []
  | x :: xs => do return (← render true x) :: (← renderItems xs)

def renderTexts : List Tree → Except Fault (List String)
  | [] => .ok []
  | x :: xs => do return (← render false x) :: (← renderTexts xs)

def renderElements : Tree → Except Fault (List String)
  | list xs | tuple xs => renderTexts xs
  | text s => .ok (s.toList.map (·.toString))
  | dict es => .ok (es.map (·.1))
  | _ => .error .wrongKind

def renderEntries : List (String × Tree) → Except Fault (List String)
  | [] => .ok []
  | (key, value) :: rest => do
    return (Text.quote key ++ ": " ++ (← render true value)) :: (← renderEntries rest)

def renderTable : List (Tree × Tree) → Except Fault (List String)
  | [] => .ok []
  | (key, value) :: rest => do
    let first := (← render true key) ++ ": " ++ (← render true value)
    return first :: (← renderTable rest)

def renderFields : Tree → Except Fault (List String)
  | list xs | tuple xs => renderPairs xs
  | text s => if s.isEmpty then .ok [] else .error .badValue
  | dict es => es.mapM fun e => renderCharPair e.1
  | _ => .error .wrongKind

def renderPairs : List Tree → Except Fault (List String)
  | [] => .ok []
  | x :: xs => do return (← renderPair x) :: (← renderPairs xs)

def renderPair : Tree → Except Fault String
  | list [a, b] | tuple [a, b] => do return (← render false a) ++ ": " ++ (← render false b)
  | list _ | tuple _ => .error .badValue
  | text s => renderCharPair s
  | dict es =>
    match es with
    | [(a, _), (b, _)] => .ok (a ++ ": " ++ b)
    | _ => .error .badValue
  | _ => .error .wrongKind

end

def plain (t : Tree) : Except Fault String := t.render false

/-- The entries of a dictionary with the plain forms of their keys. -/
def shownEntries : Tree → Except Fault (List (String × Tree))
  | dict es => .ok es
  | table es => es.mapM fun (key, value) => return (← key.plain, value)
  | _ => .error .noSuchPart

/-! ### Entries of names -/

/-- What the entry of a name says about its value; nothing if it says nothing. -/
def info (symbol : Tree) : Except Fault Tree := do
  return (← symbol.get? "info").getD (dict [])

/-- Whether an entry is that of a record type. -/
def isRecordEntry (symbol : Tree) : Except Fault Bool :=
  if symbol.isTruthy then do return (← symbol.get "type").isTextOf "record" else .ok false

/-- Whether an entry is that of a parameter. -/
def isParameterEntry (symbol : Tree) : Except Fault Bool := do
  return (← symbol.get "kind").isTextOf "parameter"

/-- The name that a tree stands for as a key of a table. -/
def key (t : Tree) : Except Fault String :=
  match t with
  | text s => .ok s
  | _ => if t.isKey then t.plain else .error .wrongKind

end MiniPascal.Tree
