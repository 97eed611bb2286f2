import MiniPascal.Syntax
import MiniPascal.Syntax.Cursor

/-!
# The Grammar

The productions of the grammar, each as a parser of its syntactic category. Those that nest take
fuel for the depth of the nesting; a list of tokens is given enough of it by `Grammar.depthFor`. -/

namespace MiniPascal.Grammar

open Parse

/-- Enough fuel for parsing a list of tokens: a few levels for each of them. -/
def depthFor (tokens : List Token) : Nat := 8 * tokens.length + 16

/-- The operators that join operands. They are all grouped from the left. -/
def joiningKinds : List TokenKind :=
  [.plus, .minus, .kwOr, .asterisk, .slash, .kwDiv, .kwMod, .kwAnd]

def comparingKinds : List TokenKind := [.eq, .neq, .lt, .gt, .lte, .gte, .kwAnd, .kwOr]

mutual

/-- `Expression = Operand [ComparingOperator Operand]`. -/
def expression : Nat → Parse Expr
  | 0 => throw .outOfFuel
  | fuel + 1 => do
    let left ← operand fuel
    if ← atAny comparingKinds then
      let operator ← takeAny
      return .compare left operator (← operand fuel)
    else return .operand left

/-- `Operand = Factor {JoiningOperator Factor}`. -/
def operand : Nat → Parse Operand
  | 0 => throw .outOfFuel
  | fuel + 1 => do joined (← factor fuel) fuel

def joined (left : Operand) : Nat → Parse Operand
  | 0 => throw .outOfFuel
  | fuel + 1 => do
    if ← atAny joiningKinds then
      let operator ← takeAny
      joined (.binary left operator (← factor fuel)) fuel
    else return left

/-- `Factor = Number | String | Char | Designator | TRUE | FALSE | "(" Expression ")" | NOT Factor`. -/
def factor : Nat → Parse Operand
  | 0 => throw .outOfFuel
  | fuel + 1 => do
    match ← kind with
    | .number => return .number (← takeNumber)
    | .string => return .literal (← take .string)
    | .char => return .literal (← take .char)
    | .identifier =>
      let place ← elements (.name (← take .identifier)) fuel
      if ← skip .dot then return .designator (.field place (← take .identifier))
      else if ← at? .lparen then return .designator (.call place (← callArguments fuel))
      else return .designator place
    | .kwTrue =>
      let _ ← takeAny
      return .truth true
    | .kwFalse =>
      let _ ← takeAny
      return .truth false
    | .lparen =>
      let _ ← takeAny
      let inner ← expression fuel
      let _ ← take .rparen
      return .group inner
    | .kwNot =>
      let _ ← takeAny
      return .negation (← factor fuel)
    | other => reject (.factor other)

/-- `{"[" Expression "]"}` after a designator. -/
def elements (base : Designator) : Nat → Parse Designator
  | 0 => throw .outOfFuel
  | fuel + 1 => do
    if ← skip .lbracket then
      let index ← expression fuel
      let _ ← take .rbracket
      elements (.element base index) fuel
    else return base

/-- `"(" [Expression {"," Expression}] ")"`. -/
def callArguments : Nat → Parse (List Expr)
  | 0 => throw .outOfFuel
  | fuel + 1 => do
    let _ ← take .lparen
    let given ← if ← at? .rparen then pure [] else expressions fuel
    let _ ← take .rparen
    return given

/-- `Expression {"," Expression}`. -/
def expressions : Nat → Parse (List Expr)
  | 0 => throw .outOfFuel
  | fuel + 1 => do
    let first ← expression fuel
    if ← skip .comma then return first :: (← expressions fuel)
    else return [first]

end

/-- `{"[" Expression "]" | "." Name}` after a designator. -/
def selectors (base : Designator) : Nat → Parse Designator
  | 0 => throw .outOfFuel
  | fuel + 1 => do
    if ← skip .lbracket then
      let index ← expression fuel
      let _ ← take .rbracket
      selectors (.element base index) fuel
    else if ← skip .dot then
      let name ← take .identifier
      selectors (.field base name) fuel
    else return base

/-- What can stand on the left of an assignment: a name with selectors. -/
def target (fuel : Nat) : Parse Designator := do
  let name ← take .identifier
  selectors (.name name) fuel

/-- `Target ":=" Expression`. -/
def assignment (fuel : Nat) : Parse Stmt := do
  let place ← target fuel
  let _ ← take .assign
  return .assign place (← expression fuel)

/-- `Name ["(" Expression {"," Expression} ")"]`. -/
def procedureCall (fuel : Nat) : Parse Stmt := do
  let name ← take .identifier
  if ← skip .lparen then
    let given ← expressions fuel
    let _ ← take .rparen
    return .call name given
  else return .call name []

/-- The word that says which way a loop counts. -/
def direction : Parse String := do
  match ← next with
  | some t =>
    if t.kind = .kwTo ∨ (t.kind = .identifier ∧ Text.toUpper t.value = "DOWNTO") then takeAny
    else reject .loopDirection
  | none => reject .loopDirection

mutual

/-- A statement. A name starts an assignment if an assignment sign or a selector follows it, and a
call otherwise. -/
def statement : Nat → Parse Stmt
  | 0 => throw .outOfFuel
  | fuel + 1 => do
    match ← kind with
    | .kwIf => ifStatement fuel
    | .kwWhile => whileStatement fuel
    | .kwFor => forStatement fuel
    | .kwBegin => return .compound (← compound fuel)
    | .identifier =>
      match (← get)[1]? with
      | some second =>
        if second.kind ∈ [.assign, .lbracket, .dot] then assignment fuel else procedureCall fuel
      | none => procedureCall fuel
    | other => reject (.statement other)

/-- `IF Expression THEN Statement [ELSE Statement]`. -/
def ifStatement : Nat → Parse Stmt
  | 0 => throw .outOfFuel
  | fuel + 1 => do
    let _ ← take .kwIf
    let condition ← expression fuel
    let _ ← take .kwThen
    let thenBranch ← statement fuel
    if ← skip .kwElse then return .ifElse condition thenBranch (← statement fuel)
    else return .ifThen condition thenBranch

/-- `WHILE Expression DO Statement`. -/
def whileStatement : Nat → Parse Stmt
  | 0 => throw .outOfFuel
  | fuel + 1 => do
    let _ ← take .kwWhile
    let condition ← expression fuel
    let _ ← take .kwDo
    return .whileLoop condition (← statement fuel)

/-- `FOR Name ":=" Expression Direction Expression DO Statement`. -/
def forStatement : Nat → Parse Stmt
  | 0 => throw .outOfFuel
  | fuel + 1 => do
    let _ ← take .kwFor
    let name ← take .identifier
    let _ ← take .assign
    let start ← expression fuel
    let way ← direction
    let stop ← expression fuel
    let _ ← take .kwDo
    return .forLoop name start way stop (← statement fuel)

/-- `BEGIN {Statement ";"} END`. -/
def compound : Nat → Parse (List Stmt)
  | 0 => throw .outOfFuel
  | fuel + 1 => do
    let _ ← take .kwBegin
    let inner ← statements fuel
    let _ ← take .kwEnd
    return inner

/-- The statements up to `END`, or up to one that no semicolon follows. -/
def statements : Nat → Parse (List Stmt)
  | 0 => throw .outOfFuel
  | fuel + 1 => do
    if ← atAny [.kwEnd, .eof] then return []
    else
      let first ← statement fuel
      if ← skip .semicolon then return first :: (← statements fuel)
      else return [first]

end

def constValueKinds : List TokenKind := [.number, .string, .char, .lparen]

mutual

/-- A constant value: a literal, a list of values, or named values. -/
def constValue : Nat → Parse ConstValue
  | 0 => throw .outOfFuel
  | fuel + 1 => do
    match ← kind with
    | .number => return .number (← takeNumber)
    | .string => return .literal (← take .string)
    | .char => return .literal (← take .char)
    | .lparen =>
      let tokens ← get
      if tokens[1]?.map Token.kind = some .identifier ∧ tokens[2]?.map Token.kind = some .colon then
        return .record (← recordValue fuel)
      else return .list (← listValue fuel)
    | _ => reject .constValue

/-- `"(" {ConstValue ","} ")"`. -/
def listValue : Nat → Parse (List ConstValue)
  | 0 => throw .outOfFuel
  | fuel + 1 => do
    let _ ← take .lparen
    let values ← constValues (atAny constValueKinds) fuel
    let _ ← take .rparen
    return values

/-- Constant values with commas between them, as long as `more` holds. -/
def constValues (more : Parse Bool) : Nat → Parse (List ConstValue)
  | 0 => throw .outOfFuel
  | fuel + 1 => do
    if ← more then
      let first ← constValue fuel
      if ← skip .comma then return first :: (← constValues more fuel)
      else return [first]
    else return []

/-- `"(" {Name ":" ConstValue (";" | ",")} ")"`. -/
def recordValue : Nat → Parse (List (String × ConstValue))
  | 0 => throw .outOfFuel
  | fuel + 1 => do
    let _ ← take .lparen
    let fields ← fieldValues fuel
    let _ ← take .rparen
    return fields

def fieldValues : Nat → Parse (List (String × ConstValue))
  | 0 => throw .outOfFuel
  | fuel + 1 => do
    if ← at? .identifier then
      let name ← take .identifier
      let _ ← take .colon
      let value ← constValue fuel
      if ← atAny [.semicolon, .comma] then
        let _ ← takeAny
        return (name, value) :: (← fieldValues fuel)
      else return [(name, value)]
    else return []

end

/-- `Number ".." Number`. -/
def dimension : Parse (Nat × Nat) := do
  let low ← takeNumber
  let _ ← take .twoDots
  return (low, ← takeNumber)

/-- `ARRAY "[" Dimension {"," Dimension} "]" OF Name`, with values after an equals sign if
`initialised` allows it. -/
def arrayType (initialised : Bool) (fuel : Nat) : Parse ArrayType := do
  let _ ← take .kwArray
  let _ ← take .lbracket
  let first ← dimension
  let others ← repeatWhile (skip .comma) dimension fuel
  let _ ← take .rbracket
  let _ ← take .kwOf
  if !(← at? .identifier) then reject .elementType
  let element ← take .identifier
  if initialised && (← at? .eq) then
    let _ ← takeAny
    let _ ← take .lparen
    let values ← constValues (do return !(← at? .rparen)) fuel
    let _ ← take .rparen
    return { first, others, element, initial := some values }
  else return { first, others, element, initial := none }

mutual

/-- A type, or nothing if none starts here. -/
def typeExpr : Nat → Parse TypeExpr
  | 0 => throw .outOfFuel
  | fuel + 1 => do
    match ← kind with
    | .kwArray => return .array (← arrayType true fuel)
    | .kwRecord => return .record (← recordType fuel)
    | .identifier => return .named (← take .identifier)
    | .string => return .named (← take .string)
    | _ => return .omitted

/-- `RECORD {Names ":" Type ";"} END`. -/
def recordType : Nat → Parse (List (String × TypeExpr))
  | 0 => throw .outOfFuel
  | fuel + 1 => do
    let _ ← take .kwRecord
    let fields ← members fuel
    let _ ← take .kwEnd
    return fields

def members : Nat → Parse (List (String × TypeExpr))
  | 0 => throw .outOfFuel
  | fuel + 1 => do
    if ← at? .kwEnd then return []
    else
      let group ← names fuel
      let _ ← take .colon
      let type ← typeExpr fuel
      let fields := group.map fun name => (name, type)
      if ← skip .semicolon then return fields ++ (← members fuel)
      else if ← at? .kwEnd then return fields
      else reject (.fieldEnd (← kind))

end

/-- `Name "=" Type [";"]`. -/
def typeDecl (fuel : Nat) : Parse Decl := do
  let name ← take .identifier
  let _ ← take .eq
  let type ← typeExpr fuel
  let _ ← skip .semicolon
  return .type name type

/-- `TYPE {TypeDeclaration}`. -/
def typeSection (fuel : Nat) : Parse (List Decl) := do
  let _ ← take .kwType
  repeatWhile (at? .identifier) (typeDecl fuel) fuel

def declaredType (cause : ParseCause) (fuel : Nat) : Parse DeclaredType := do
  match ← kind with
  | .kwArray => return .array (← arrayType true fuel)
  | .identifier => return .named (← take .identifier)
  | .string => return .named (← take .string)
  | _ => reject cause

def variableGroup (type : DeclaredType) (value : Option ConstValue) : List String → List Decl
  | [] => []
  | first :: others => .var first type value false :: others.map (.var · type value true)

/-- `Names ":" Type ["=" ConstValue] ";"`. A constant of a named type has to have a value. -/
def valueDecl (isConst : Bool) (fuel : Nat) : Parse (List Decl) := do
  let group ← names fuel
  if !(← skip .colon) then reject (.colon group)
  let type ← declaredType .declaredType fuel
  if isConst && (type matches .named _) && !(← at? .eq) then reject (.equalsSign group)
  let value ← if ← skip .eq then some <$> constValue fuel else pure none
  let _ ← take .semicolon
  return if isConst then group.map (.const · type value) else variableGroup type value group

/-- `(CONST | VAR) {Declaration}`. -/
def valueSection (isConst : Bool) (fuel : Nat) : Parse (List Decl) := do
  let _ ← take (if isConst then .kwConst else .kwVar)
  return (← repeatWhile (at? .identifier) (valueDecl isConst fuel) fuel).flatten

/-- The value of a variable in a section of variables alone: a number, a string, or a list of
them. -/
def variableValue (fuel : Nat) : Parse ConstValue := do
  match ← kind with
  | .lparen =>
    let _ ← takeAny
    let values ← separated (atAny [.number, .string]) simpleValue [.comma] fuel
    let _ ← take .rparen
    return .list values
  | .number | .string => simpleValue
  | _ => reject .variableValue
where
  /-- A number or a string. -/
  simpleValue : Parse ConstValue := do
    if ← at? .number then return .number (← takeNumber) else return .literal (← take .string)

/-- `Names ":" Type ["=" Value] ";"` in a section of variables alone. -/
def variableDecl (fuel : Nat) : Parse (List Decl) := do
  let group ← names fuel
  let _ ← take .colon
  let type ← declaredType .variableType fuel
  let value ← if ← skip .eq then some <$> variableValue fuel else pure none
  let _ ← take .semicolon
  return variableGroup type value group

/-- `VAR {Declaration}` as a section of variables alone. -/
def variableSection (fuel : Nat) : Parse (List Decl) := do
  let _ ← take .kwVar
  return (← repeatWhile (at? .identifier) (variableDecl fuel) fuel).flatten

/-- `[VAR | CONST]`, the way a parameter is passed. -/
def passingMode : Parse (Option String) := do
  if ← skip .kwVar then return some "var"
  else if ← skip .kwConst then return some "const"
  else return none

/-- `[VAR | CONST] Names ":" Type`. -/
def parameterGroup (fuel : Nat) : Parse (List Parameter) := do
  let mode ← passingMode
  let group ← names fuel
  let _ ← take .colon
  let type ← typeExpr fuel
  return group.map fun name => { name, type, mode }

/-- `"(" [Parameters {";" Parameters}] ")"`. -/
def parameterList (fuel : Nat) : Parse (List Parameter) := do
  let _ ← take .lparen
  if ← skip .rparen then return []
  let first ← parameterGroup fuel
  let others ← repeatWhile (skip .semicolon) (parameterGroup fuel) fuel
  let _ ← take .rparen
  return first ++ others.flatten

/-- The type of the result of a function, after its parameters; a procedure has none. -/
def resultType (isFunction : Bool) (name : String) (fuel : Nat) : Parse TypeExpr := do
  if isFunction then
    if ← skip .colon then typeExpr fuel else reject (.resultType name)
  else return .omitted

mutual

/-- `{Declarations} CompoundStatement`. -/
def block : Nat → Parse Block
  | 0 => throw .outOfFuel
  | fuel + 1 => do
    let declared ← declarations fuel
    return .mk declared (← compound fuel)

def declarations : Nat → Parse (List Decl)
  | 0 => throw .outOfFuel
  | fuel + 1 => do
    match ← kind with
    | .kwType => return (← typeSection fuel) ++ (← declarations fuel)
    | .kwConst => return (← valueSection true fuel) ++ (← declarations fuel)
    | .kwVar => return (← valueSection false fuel) ++ (← declarations fuel)
    | .kwFunction | .kwProcedure => return (← routine fuel) :: (← declarations fuel)
    | _ => return []

/-- `PROCEDURE Name [Parameters] ";" Block ";" | FUNCTION Name [Parameters] ":" Type ";" Block ";"`. -/
def routine : Nat → Parse Decl
  | 0 => throw .outOfFuel
  | fuel + 1 => do
    let word ← kind
    if word ∉ [.kwProcedure, .kwFunction] then reject .routineWord
    let written ← takeAny
    let name ← take .identifier
    let parameters ← if ← at? .lparen then parameterList fuel else pure []
    let result ← resultType (word = .kwFunction) name fuel
    let _ ← take .semicolon
    let body ← block fuel
    let _ ← take .semicolon
    return .routine written name parameters body result

end

/-- `Name Name ";" Block "."`. The first name is the word that starts a program. -/
def program (fuel : Nat) : Parse Program := do
  let _ ← take .identifier
  let name ← take .identifier
  let _ ← take .semicolon
  let body ← block fuel
  let _ ← take .dot
  return { name, block := body }

end MiniPascal.Grammar

namespace MiniPascal

def Program.parse (tokens : List Token) : Except ParseError Program :=
  ((Grammar.program (Grammar.depthFor tokens)).run tokens).map Prod.fst

end MiniPascal
