import MiniPascal.Listing.Statement
import MiniPascal.Tree.Literal

/-!
# Listing Programs

The listing of a program: its constants, record types and routines in the order of their
declaration, its variables in one group, and its statements as the main function. What is known
about a name is given as data, or as the written form of data that is read back first.
-/

namespace MiniPascal

namespace Tree

mutual

def count : Tree → Nat
  | list items | tuple items => countAll items + 1
  | dict entries => countEntries entries + 1
  | table entries => countTable entries + 1
  | _ => 1

def countAll : List Tree → Nat
  | [] => 0
  | item :: rest => count item + countAll rest

def countEntries : List (String × Tree) → Nat
  | [] => 0
  | (_, value) :: rest => count value + countEntries rest

def countTable : List (Tree × Tree) → Nat
  | [] => 0
  | (_, value) :: rest => count value + countTable rest

end

end Tree

namespace Listing

/-- What is known about a name: data, or what is read back from a text. -/
def readInfo (info : Tree) : Tree :=
  match info with
  | .text s => Tree.readBack s.toList
  | _ => info

/-- A value as it is listed in a record: texts stand between double quotes. -/
def fieldValue (value : Tree) : Except Fault String := do
  let shown ← value.plain
  return if value.isText then s!"\"{shown}\"" else shown

def recordType (name : String) (info : Tree) : Except Fault String := do
  let fields ← ((← info.get? "fields_info").getD (.list [])).elements
  let lines ← fields.mapM fun field => show Except Fault String from do
    let selected ← (← field.entry "field_name").plain
    let type ← field.entry "field_type"
    if !type.isKey then throw .wrongKind
    let size ← if isOneOf type ["integer", "boolean"] then .ok "1" else type.plain
    return s!"\n ({name}_{selected} {size})"
  let joined := " ".intercalate lines
  return s!"(struct {name} {joined}\n)"

def arrayType (name info word : Tree) : Except Fault String := do
  let kind ← word.plain
  let shown ← name.plain
  let element ← (← info.get "element_type").plain
  let size ← (← info.get "size").plain
  return s!"({kind} {shown} (array {element} {size}))"

def constantFields (record : String) : List (String × Tree) → Except Fault (List String)
  | [] => .ok []
  | (name, value) :: rest => do
    let shown ← fieldValue value
    return s!"({record}_{name} {shown})" :: (← constantFields record rest)

def constant (name : String) (info : Tree) : Except Fault String := do
  let inner ← info.info
  if !inner.isDict then
    let value ← inner.plain
    return s!"(const {name} \"=\" {value})"
  else if (← inner.get "type").isTextOf "record" then
    let record ← (← inner.get "record_type").plain
    let fields ← ((← inner.get? "fields").getD (.dict [])).shownEntries
    let joined := " ".intercalate (← constantFields record fields)
    return s!"(const {name} (struct {record} {joined}))"
  else
    let value ← ((← inner.get? "value").getD (.text "0")).plain
    return s!"(const {name} \"=\" {value})"

def namedValues : List Tree → Except Fault (List (String × Tree))
  | [] => .ok []
  | item :: rest => do
    let (name, value) ← item.pair
    return (← name.key, value) :: (← namedValues rest)

/-- The listings of fields, those of records inside records being named by the whole path. -/
def fieldEntries (start : String) : List (String × Tree) → Except Fault (List String)
  | [] => .ok []
  | (name, .dict inner) :: rest => do
    let first ← fieldEntries s!"{start}_{name}" inner
    return first ++ (← fieldEntries start rest)
  | (name, value) :: rest => do
    let shown ← fieldValue value
    return s!"({start}_{name} {shown})" :: (← fieldEntries start rest)

/-- The listings of the fields of a record, given as a dictionary or as a list of pairs. -/
def fields (start : String) (t : Tree) : Except Fault (List String) := do
  match t with
  | .dict entries => fieldEntries start entries
  | .list items =>
    let named ← namedValues items
    fieldEntries start
      (named.foldl (fun entries (key, value) => Tree.setEntry key value entries) [])
  | _ => throw .noSuchPart

def arrayVariable (name : String) (info : Tree) : Except Fault String := do
  let element ← info.get "element_type"
  let (lowBound, highBound) ← firstBounds info
  let low ← lowBound.plain
  let high ← highBound.plain
  if isOneOf element ["integer", "char"] then return s!"({name} (({high} \"-\" {low}) \"+\" 1))"
  else if element.isTextOf "string" then return s!"({name} ((({high} \"-\" {low}) \"+\" 1)))"
  else
    let type ← element.plain
    return s!"({name} ((({high} \"-\" {low}) \"+\" 1) \"*\" {type}))"

def variableDeclaration (name : String) (info : Tree) : Except Fault String := do
  let inner ← info.info
  let type ← inner.get "type"
  if type.isTextOf "array" then arrayVariable name inner
  else if type.isTextOf "record" then
    let record ← (← inner.get "record_type").plain
    return s!"({name} {record})"
  else return s!"({name} 1)"

/-- The listing of a name that a routine declares; its parameters are not listed. -/
def localDeclaration (nested : String → Tree → Except Fault String) (name : String) (info : Tree) :
    Except Fault (List String) := do
  if (← info.get "kind").isTextOf "parameter" then return []
  let type ← info.get "type"
  if type.isTextOf "const" then return [← constant name info]
  else if type.isTextOf "record" then return [← recordType name info]
  else if type.isTextOf "var" then return [← variableDeclaration name info]
  else if (← info.get? "kind").isSome then return [← nested name info]
  else return []

def localTable (info : Tree) : Except Fault Table := do
  match (← info.get? "local_symbol_table").getD (.dict []) with
  | .scope number => return .scope number
  | t => return .loose (← t.shownEntries)

/-- The listing of a routine. Routines inside it are listed among its names, at most as deep as the
fuel allows. -/
def routineWithin (context : Context) : Nat → String → Tree → Except Fault String
  | 0, _, _ => .error .circular
  | fuel + 1, name, info => do
    let parameters ← ((← info.get? "parameters").getD (.list [])).elements
    let names ← parameters.mapM fun parameter => parameter.entry "name"
    let listed := " ".intercalate (← names.mapM textOf)
    let table ← localTable info
    let declared ← (table.symbols context).mapM fun (symbol, details) =>
      localDeclaration (routineWithin context fuel) symbol details
    let declarations := declared.flatten
    let joined := "\n  ".intercalate declarations
    let group :=
      if declarations.isEmpty then ";; нет локальных переменных" else s!"(var\n  {joined}\n)"
    let code := (← info.get? "block_code").getD (.dict [])
    let body ←
      if isBlockType (← code.get "type") then block context code "  " table
      else .ok ";; тело функции отсутствует"
    let last := if (← info.get "kind").isTextOf "function" then s!"  (return {name})" else ""
    return s!"(function {name} ({listed})\n{group}\n{body}\n{last}\n)"

/-- The listing of a routine. A nesting that is deeper than all that is known together runs in a
circle. -/
def routine (context : Context) (name : String) (info : Tree) : Except Fault String :=
  let known := context.scopes.all.foldl (fun n scope => n + Tree.countEntries scope.symbols) 0
  routineWithin context (known + info.count + 1) name info

/-- What has been listed so far. -/
structure Output where
  /-- The pieces of the listing, in order. -/
  pieces : List String
  /-- The listings of the variables of the program, in order. -/
  storage : List String

def Output.empty : Output := { pieces := [], storage := [] }

/-- A step that adds to the output, which is kept if the step fails. -/
abbrev Lister := ExceptT Fault (StateM Output)

def Output.addPiece (step : Except Fault String) : Lister Unit := do
  let piece ← (step : Except Fault String)
  modify fun output => { output with pieces := output.pieces ++ [piece] }

def Output.addVariable (step : Except Fault String) : Lister Unit := do
  let shown ← (step : Except Fault String)
  modify fun output => { output with storage := output.storage ++ [shown] }

def declaration (context : Context) (name : String) (given : Tree) : Lister Unit := do
  let info := readInfo given
  let type ← (info.get "type" : Except Fault Tree)
  if type.isTextOf "const" then Output.addPiece (constant name info)
  else if type.isTextOf "record" then Output.addPiece (recordType name info)
  else if type.isTextOf "var" then Output.addVariable (variableDeclaration name info)
  else if (← (info.get? "kind" : Except Fault (Option Tree))).isSome then
    Output.addPiece (routine context name info)

def continueProgram (context : Context) (symbols : List (String × Tree)) (statements : List Tree) :
    Lister String := do
  symbols.forM fun (name, info) => declaration context name info
  let storage := (← get).storage
  if !storage.isEmpty then
    let joined := "\n  ".intercalate storage
    Output.addPiece (.ok s!"(var\n  {joined}\n)")
  Output.addPiece (.ok "( function main_")
  statements.forM fun t => Output.addPiece do return "  " ++ (← statement context t .outermost)
  Output.addPiece (.ok ")")
  return "\n".intercalate (← get).pieces

def program (context : Context) (symbols : List (String × Tree)) (statements : List Tree) :
    Except Fault String :=
  ((continueProgram context symbols statements).run.run Output.empty).1

/-- What is known about a name in its written form, the table of the names of a routine being
written as a dictionary. -/
def writtenInfo (scopes : Scopes) (info : Tree) : Except Fault String :=
  match info with
  | .dict entries =>
    match entries.lookup "local_symbol_table" with
    | some (.scope number) =>
      (Tree.dict (Tree.setEntry "local_symbol_table" (.dict (scopes.symbolsOf number))
        entries)).plain
    | _ => info.plain
  | _ => info.plain

end Listing

end MiniPascal
