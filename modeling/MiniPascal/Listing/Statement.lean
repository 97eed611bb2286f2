import MiniPascal.Listing.Expression

/-!
# Listing Statements

The statements of a block are listed one after the other, each after the indentation of the block.
A block that is itself a statement has the table of its names in place of its indentation, and its
own statements are looked up in the outermost table.
-/

namespace MiniPascal.Listing

/-- A part of the code of a statement. -/
structure StatementPart where
  /-- The part as a statement. -/
  statement : Table → Except Fault String
  /-- The part as a block, with an indentation. -/
  block : String → Table → Except Fault String
  /-- The elements of the part as statements. -/
  elements : Except Fault (List (Table → Except Fault String))

def isBlockType (type : Tree) : Bool := isOneOf type ["Block", "block"]

def isCellType (type : Tree) : Bool := isOneOf type ["integer", "string", "char"]

def arrayCopy (info : Tree) (target value : String) : Except Fault String := do
  let element ← info.get "element_type"
  let (lowBound, highBound) ← firstBounds info
  let low ← lowBound.plain
  let high ← highBound.plain
  if isCellType element then
    let call ← copyCall target value .null
    return s!"{call} (({high} - {low}) \"+\" 1))"
  else
    let call ← copyCall target value element
    let type ← element.plain
    return s!"({call}({type}) \"*\" (({high} - {low}) \"+\" 1)))"

def plainAssignment (target value : String) : String := s!"({target} \"=\" {value})"

/-- The listing of an assignment to an element of an array, or to anything else that is no variable
of a compound type. -/
def elementAssignment (context : Context) (table : Table) (target : Tree) (address value : String) :
    Except Fault String := do
  if (← target.get "type").isTextOf "ArrayAccess" then
    let info ← valueInfo (← table.lookup context (← target.get "array"))
    let element ← info.get "element_type"
    if isCellType element then return plainAssignment address value
    else
      let call ← copyCall address value element
      return s!"({call}))"
  else return plainAssignment address value

def assignment (context : Context) (table : Table) (target value : Tree) : Except Fault String := do
  let address ← (← expression context target true table).plain
  let shown ← (← expression context value false table).plain
  let name ← target.get? "name"
  let symbol ← match name with
    | some n => table.lookup context n
    | none => .ok .null
  if symbol.isTruthy then
    let info ← valueInfo symbol
    let type ← info.get "type"
    if type.isTextOf "record" then return s!"{address} {shown}"
    else if type.isTextOf "array" then arrayCopy info address shown
    else elementAssignment context table target address shown
  else elementAssignment context table target address shown

def procedureCall (context : Context) (t : Tree) : Except Fault String := do
  let arguments := (← t.get? "arguments").getD (.list [])
  let codes ← (← arguments.elements).mapM fun a => expression context a false .outermost
  let joined := " ".intercalate (← codes.mapM textOf)
  let name ← (← t.get "name").plain
  return s!"({name} {joined})"

/-- The listings of the statements of a block, with the indentation before each. -/
def blockLines (indent : String) (table : Table) (part : Option StatementPart) :
    Except Fault String := do
  let statements ← match part with
    | some p => p.elements
    | none => .ok []
  let lines ← statements.mapM fun statement => do return indent ++ (← statement table)
  return "\n  ".intercalate lines

def conditionalCode (context : Context) (entries : List (String × Tree))
    (parts : List (String × StatementPart)) (indent : String) (table : Table) :
    Except Fault String := do
  let get (key : String) : Tree := (entries.lookup key).getD .null
  let condition ← (← expression context (get "condition") false table).plain
  let yes ← match parts.lookup "then" with
    | some part => part.block (indent ++ "  ") table
    | none => .error .noSuchPart
  let other := get "else"
  let no ←
    match parts.lookup "else" with
    | none => .ok ""
    | some part =>
      if other.isTruthy then
        if isBlockType (← other.get "type") then
          if ((← other.get? "statements").getD (.list [])).isTruthy then
            part.block (indent ++ "  ") table
          else .ok ""
        else part.statement table
      else .ok ""
  if no.isEmpty then return s!"(if {condition}\n{indent}    {yes}\n      )"
  else return s!"(if {condition}\n  {indent}{yes}\n{indent}    else\n  {indent}  {no}\n    )"

def statementCode (context : Context) (entries : List (String × Tree))
    (parts : List (String × StatementPart)) (table : Table) : Except Fault String := do
  let get (key : String) : Tree := (entries.lookup key).getD .null
  let body : Except Fault String :=
    match parts.lookup "body" with
    | some part => part.block "  " table
    | none => .error .noSuchPart
  match get "type" with
  | .text "Assignment" => assignment context table (get "target") (get "value")
  | .text "ProcedureCall" => .error .wrongKind
  | .text "For" =>
    let first ← (← expression context (get "start") table.isGiven .outermost).plain
    let last ← (← expression context (get "end") table.isGiven .outermost).plain
    let inner ← body
    let name ← (get "loop_variable").plain
    let direction ← (get "direction").plain
    return s!"(for {name} {first} {direction} {last}\n{inner}\n)"
  | .text "While" =>
    let condition ← (← expression context (get "condition") false table).plain
    let inner ← body
    return s!"(while {condition}\n  {inner}\n  )"
  | .text "If" => conditionalCode context entries parts "" table
  | .text "Block" | .text "block" =>
    blockLines table.asIndent .outermost (parts.lookup "statements")
  | type =>
    let shown ← type.plain
    return s!";;; Неизвестный оператор: {shown}"

mutual

def statement (context : Context) : Tree → Table → Except Fault String
  | .dict entries => statementCode context entries (statementParts context entries)
  | _ => fun _ => .error .noSuchPart

/-- The listing of a block with an indentation. A single statement stands for the block of it, and
is not indented. -/
def block (context : Context) : Tree → String → Table → Except Fault String
  | .dict entries => fun indent table =>
    let parts := statementParts context entries
    if isBlockType ((entries.lookup "type").getD .null) then
      blockLines indent table (parts.lookup "statements")
    else statementCode context entries parts table
  | _ => fun _ _ => .error .noSuchPart

def statementParts (context : Context) : List (String × Tree) → List (String × StatementPart)
  | [] => []
  | (key, value) :: rest =>
    (key, { statement := statement context value
            block := block context value
            elements := statementElements context value }) :: statementParts context rest

def statementElements (context : Context) :
    Tree → Except Fault (List (Table → Except Fault String))
  | .list items | .tuple items => .ok (statementItems context items)
  | t => do return (← t.elements).map fun _ _ => .error .noSuchPart

def statementItems (context : Context) : List Tree → List (Table → Except Fault String)
  | [] => []
  | item :: rest => statement context item :: statementItems context rest

end

def conditional (context : Context) (t : Tree) (table : Table) (indent : String) :
    Except Fault String :=
  match t with
  | .dict entries => conditionalCode context entries (statementParts context entries) indent table
  | _ => .error .noSuchPart

end MiniPascal.Listing
