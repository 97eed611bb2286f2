import MiniPascal.Listing.Basic
import MiniPascal.Text.Case

/-!
# Listing Expressions

The listing of an expression depends on whether it stands for an address, as the target of an
assignment does, or for the value at it. Code is a dictionary, and the parts that it lacks or that
do not fit make the listing fail, each in its own way.
-/

namespace MiniPascal.Listing

/-- The listing of an expression, as an address if the first argument is set, with the table for
its names. It is a text, or the name of a variable as it stands in the code. -/
abbrev ExpressionListing := Bool → Table → Except Fault Tree

/-- A part of the code of an expression. -/
structure ExpressionPart where
  /-- The listing of the part. -/
  listing : ExpressionListing
  /-- The elements of the part with their listings. -/
  elements : Except Fault (List (Tree × ExpressionListing))

def noExpression : ExpressionListing := fun _ _ => .error .noSuchPart

def integerCode (value : Tree) : Except Fault String :=
  match value with
  | .bool b => .ok (if b then "1" else "0")
  | _ => value.plain

def operatorSign (operator : String) : String :=
  match Text.toLower operator with
  | "div" => "/"
  | "mod" => "%"
  | "and" => "&"
  | "or" => "|"
  | _ => operator

def variableCode (isAddress : Bool) (name symbol : Tree) : Except Fault Tree := do
  if symbol.isNull then return name
  let shown ← name.plain
  if (← symbol.get "kind").isTextOf "parameter" then
    return .text (if isAddress then load shown else load (load shown))
  let info ← valueInfo symbol
  let type ← info.get "type"
  if isOneOf type ["integer", "boolean"] then
    return if isAddress then name else .text (load shown)
  else if type.isTextOf "record" then
    let record ← (← info.get "record_type").plain
    return .text (if isAddress then s!"(call memcpy_ {shown}" else s!"{shown} {record})")
  else if type.isTextOf "array" then return .text shown
  else return name

def elementCode (isAddress : Bool) (element : Tree) (base index low : String) :
    Except Fault String := do
  if isOneOf element ["integer", "char"] then
    let address := s!"({base} \"+\" (({index} \"-\" {low})))"
    return if isAddress then address else wrap (load address)
  else if element.isTextOf "string" then
    return if isAddress then s!"(({base} \"+\" {index} \"-\" {low}))"
      else wrap (load s!"({base} \"+\" ({index} \"-\" {low}))")
  else
    let type ← element.plain
    return if isAddress then s!"({base} \"+\" (({index} \"-\" {low}) \"*\" {type}))"
      else wrap (load s!"({base} \"+\" ((({index} \"-\" {low}) \"*\" {type}))")

/-- The listing of an index. A single variable is always loaded. -/
def indexCode (index : Tree) (listing : ExpressionListing) (table : Table) : Except Fault Tree := do
  let type ← index.get "type"
  if type.isTextOf "Integer" then return .text (← integerCode (← index.get "value"))
  else if type.isTextOf "Variable" then return .text (load (← (← index.get "name").plain))
  else listing true table

/-- The listing of the first index of an access, or of zero where it has none. -/
def firstIndexCode (indices : Tree) (part : Option ExpressionPart) (table : Table) :
    Except Fault Tree := do
  if indices.isTruthy then
    let elements ← match part with
      | some p => p.elements
      | none => .error .noSuchPart
    match indices, elements with
    | .dict _, _ => .error .missingKey
    | _, (index, listing) :: _ => indexCode index listing table
    | _, [] => .error .outOfRange
  else return .text "0"

def accessCode (context : Context) (isAddress : Bool) (table : Table) (array indices : Tree)
    (part : Option ExpressionPart) : Except Fault Tree := do
  let symbol ← table.lookup context array
  let info ← valueInfo symbol
  let element ← info.get "element_type"
  let dimension ← (← info.get "dimensions").item 0
  let low ← (← dimension.item 0).plain
  let index ← (← firstIndexCode indices part table).plain
  let shown ← array.plain
  let base := if (← symbol.get "kind").isTextOf "parameter" then load shown else shown
  return .text (← elementCode isAddress element base index low)

/-- Whether a tree has an entry, an item or a piece of the given text. -/
def holds (t : Tree) (key : String) : Except Fault Bool :=
  match t with
  | .dict entries => .ok (entries.lookup key).isSome
  | .list items | .tuple items => .ok (items.any (·.isTextOf key))
  | .text s => .ok ((s.splitOn key).length > 1)
  | _ => .error .wrongKind

def recordTypeName (info : Tree) : Except Fault String := do
  let isParameter := (← info.get "kind").isTextOf "parameter"
  let record := (← info.get? "record_type").getD (.text "")
  if isParameter && !record.isTruthy then ((← info.get? "type").getD (.text "")).plain
  else record.plain

def fieldCode (context : Context) (isAddress : Bool) (table : Table) (record field : Tree) :
    Except Fault String := do
  if ← holds record "name" then
    let name ← record.entry "name"
    let info ← valueInfo (← table.lookup context name)
    let type ← recordTypeName info
    let base ← name.plain
    let selected ← field.plain
    let address := s!"({base} \"+\" {type}_{selected})"
    return if isAddress then address else wrap (load address)
  else if ← holds record "array" then
    let name ← record.entry "array"
    let info ← valueInfo (← table.lookup context name)
    let type ← ((← info.get? "element_type").getD (.text "")).plain
    let base ← name.plain
    let selected ← field.plain
    let address := s!"{base} \"+\" {type}_{selected}"
    return if isAddress then wrap address else wrap (load address)
  else return "UNKNOWN_FIELD_ACCESS"

def joinedListings (isAddress : Bool) (table : Table) (part : Option ExpressionPart) :
    Except Fault String := do
  let elements ← match part with
    | some p => p.elements
    | none => .ok []
  let codes ← elements.mapM fun (_, listing) => listing isAddress table
  return " ".intercalate (← codes.mapM textOf)

def expressionCode (context : Context) (entries : List (String × Tree))
    (parts : List (String × ExpressionPart)) : ExpressionListing := fun isAddress table => do
  let get (key : String) : Tree := (entries.lookup key).getD .null
  let listed (key : String) : Except Fault String := do
    match parts.lookup key with
    | some part => (← part.listing isAddress table).plain
    | none => .error .noSuchPart
  match get "type" with
  | .text "Integer" => return .text (← integerCode (get "value"))
  | .text "String" =>
    let shown ← (get "value").plain
    return .text s!"\"{shown}\""
  | .text "Char" => return .text (← (get "value").plain)
  | .text "Variable" =>
    variableCode isAddress (get "name") (← table.lookup context (get "name"))
  | .text "BinaryOperation" | .text "BinaryExpression" =>
    match get "operator" with
    | .text operator =>
      let sign := operatorSign operator
      let left ← listed "left"
      let right ← listed "right"
      return .text s!"({left} \"{sign}\" {right})"
    | _ => .error .noSuchPart
  | .text "FunctionCall" =>
    let arguments ← joinedListings isAddress table (parts.lookup "arguments")
    let name ← (get "name").plain
    return .text s!"({name} {arguments})"
  | .text "ArrayAccess" =>
    accessCode context isAddress table (get "array") (get "indices") (parts.lookup "indices")
  | .text "RecordFieldAccess" =>
    return .text (← fieldCode context isAddress table (get "record") (get "field"))
  | _ => return .text "UNKNOWN_EXPR"

mutual

def expression (context : Context) : Tree → ExpressionListing
  | .dict entries => expressionCode context entries (expressionParts context entries)
  | _ => noExpression

def expressionParts (context : Context) :
    List (String × Tree) → List (String × ExpressionPart)
  | [] => []
  | (key, value) :: rest =>
    (key, { listing := expression context value, elements := expressionElements context value }) ::
      expressionParts context rest

def expressionElements (context : Context) :
    Tree → Except Fault (List (Tree × ExpressionListing))
  | .list items | .tuple items => .ok (expressionItems context items)
  | t => do return (← t.elements).map fun element => (element, noExpression)

def expressionItems (context : Context) : List Tree → List (Tree × ExpressionListing)
  | [] => []
  | item :: rest => (item, expression context item) :: expressionItems context rest

end

def index (context : Context) (table : Table) (t : Tree) : Except Fault Tree :=
  indexCode t (expression context t) table

end MiniPascal.Listing
