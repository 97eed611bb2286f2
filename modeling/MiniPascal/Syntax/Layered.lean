import MiniPascal.Syntax.Cursor

/-!
# The Layered Grammar

A smaller grammar in which sums are made of products and products of factors, so that operators bind
by their layer. It has no comparisons, calls or selectors. Its programs have a section of variables
that can only be empty: a variable cannot be declared without a starting value, and the grammar has
no way to write one.
-/

namespace MiniPascal.Layered

mutual

/-- Products with additive operators between them. -/
inductive Sum where
  | mk (first : Product) (rest : List (String × Product))

inductive Product where
  | mk (first : Factor) (rest : List (String × Factor))

inductive Factor where
  | number (value : Int)
  | literal (value : String)
  | name (name : String)
  | group (inner : Sum)

end

/-- A statement. -/
inductive Stmt where
  | assign (name : String) (value : Sum)
  | ifThen (condition : Sum) (thenBranch : Stmt)
  | ifElse (condition : Sum) (thenBranch elseBranch : Stmt)
  | whileLoop (condition : Sum) (body : Stmt)
  | forLoop (name : String) (start stop : Sum) (body : List Stmt)

/-- A program: its name and its statements. -/
structure Program where
  /-- The name of the program. -/
  name : String
  /-- What it does. -/
  statements : List Stmt

/-! ### As trees -/

mutual

def Sum.toTree : Sum → Tree
  | .mk first rest => .simple (.list (first.toTree :: productTrees rest)) .null

def Product.toTree : Product → Tree
  | .mk first rest => .term (.list (first.toTree :: factorTrees rest)) .null

def Factor.toTree : Factor → Tree
  | .number value => .factor (.int value) .null .null (.bool false)
  | .literal value => .factor (.text value) .null .null (.bool false)
  | .name name => .factor .null (.text name) .null (.bool false)
  | .group inner => .factor .null .null inner.toTree (.bool false)

def productTrees : List (String × Product) → List Tree
  | [] => []
  | (operator, p) :: rest => .text operator :: p.toTree :: productTrees rest

def factorTrees : List (String × Factor) → List Tree
  | [] => []
  | (operator, f) :: rest => .text operator :: f.toTree :: factorTrees rest

end

mutual

def Stmt.toTree : Stmt → Tree
  | .assign name value => .assign (.text name) value.toTree
  | .ifThen condition thenBranch => .ifElse condition.toTree thenBranch.toTree .null
  | .ifElse condition thenBranch elseBranch =>
    .ifElse condition.toTree thenBranch.toTree elseBranch.toTree
  | .whileLoop condition body => .whileLoop condition.toTree body.toTree
  | .forLoop name start stop body =>
    .forLoop (.text name) start.toTree (.text "to") stop.toTree (.compound (.list (stmtTrees body)))

def stmtTrees : List Stmt → List Tree
  | [] => []
  | s :: ss => s.toTree :: stmtTrees ss

end

def compoundTree (statements : List Stmt) : Tree := .compound (.list (stmtTrees statements))

def noVariables : Tree := .declarations (.list [])

/-- The statements of a program with its empty section of variables, as a tree. -/
def blockTree (statements : List Stmt) : Tree := .block noVariables (compoundTree statements)

def Program.toTree (p : Program) : Tree := .program (.text p.name) (blockTree p.statements)

/-! ### The productions -/

/-- What can go wrong while tokens are parsed. -/
inductive ParseError where
  /-- A token of another kind was expected. -/
  | expected (wanted found : TokenKind) (line column : Int)
  /-- No statement starts with this token. -/
  | statement (found : Option Token)
  /-- No factor starts with this token. -/
  | factor (found : Option Token)
  /-- The direction of a loop is missing. -/
  | direction
  /-- A numeral is not a decimal number that can be read. -/
  | badNumber
  /-- What was read cannot be built: an array type, or a variable without a starting value. -/
  | cannotBuild
  /-- The productions nest more deeply than was allowed for. -/
  | outOfFuel
  deriving DecidableEq, Repr

def ParseError.message? : ParseError → Option String
  | expected wanted found line column =>
    some s!"Expected {wanted.display}, but got {found.display} at line {line}, col {column}"
  | statement found => some ("Unexpected statement at " ++ Token.renderNext found)
  | factor found => some ("Unexpected token " ++ Token.renderNext found)
  | direction => some "Expected 'to' or 'downto' after start expression"
  | badNumber | cannotBuild | outOfFuel => none

/-- Parsers of the layered grammar. -/
abbrev Parse := StateT (List Token) (Except ParseError)

/-- The token that comes next, if there is one. -/
def next : Parse (Option Token) := do return (← get).head?

def kind : Parse TokenKind := do
  match ← next with
  | some t => return t.kind
  | none => return .eof

def take (wanted : TokenKind) : Parse String := do
  match ← get with
  | t :: rest =>
    if t.kind = wanted then
      set rest
      return t.value
    else throw (.expected wanted t.kind t.line t.column)
  | [] => throw (.expected wanted .eof (-1) (-1))

/-- Takes a token of a given kind if it comes next, and says whether it did. -/
def skip (wanted : TokenKind) : Parse Bool := do
  if (← kind) = wanted then
    let _ ← take wanted
    return true
  else return false

def takeNumber : Parse Int := do
  match Text.readInt? (← take .number) with
  | some n => return n
  | none => throw .badNumber

mutual

/-- `Sum = Product {("+" | "-") Product}`. -/
def sum : Nat → Parse Sum
  | 0 => throw .outOfFuel
  | fuel + 1 => do
    let first ← product fuel
    return .mk first (← addends fuel)

def addends : Nat → Parse (List (String × Product))
  | 0 => throw .outOfFuel
  | fuel + 1 => do
    let operator ← kind
    if operator ∈ [.plus, .minus] then
      let written ← take operator
      let p ← product fuel
      return (written, p) :: (← addends fuel)
    else return []

/-- `Product = Factor {("*" | DIV) Factor}`. -/
def product : Nat → Parse Product
  | 0 => throw .outOfFuel
  | fuel + 1 => do
    let first ← factor fuel
    return .mk first (← multipliers fuel)

def multipliers : Nat → Parse (List (String × Factor))
  | 0 => throw .outOfFuel
  | fuel + 1 => do
    let operator ← kind
    if operator ∈ [.asterisk, .kwDiv] then
      let written ← take operator
      let f ← factor fuel
      return (written, f) :: (← multipliers fuel)
    else return []

/-- `Factor = Number | String | Name | "(" Sum ")"`. -/
def factor : Nat → Parse Factor
  | 0 => throw .outOfFuel
  | fuel + 1 => do
    match ← kind with
    | .number => return .number (← takeNumber)
    | .string => return .literal (← take .string)
    | .identifier => return .name (← take .identifier)
    | .lparen =>
      let _ ← take .lparen
      let inner ← sum fuel
      let _ ← take .rparen
      return .group inner
    | _ => throw (.factor (← next))

end

mutual

def statement : Nat → Parse Stmt
  | 0 => throw .outOfFuel
  | fuel + 1 => do
    match ← kind with
    | .identifier => assignment fuel
    | .kwIf => ifStatement fuel
    | .kwWhile => whileStatement fuel
    | .kwFor => forStatement fuel
    | _ => throw (.statement (← next))

/-- `Name ":=" Sum`. -/
def assignment : Nat → Parse Stmt
  | 0 => throw .outOfFuel
  | fuel + 1 => do
    let name ← take .identifier
    let _ ← take .assign
    return .assign name (← sum fuel)

/-- `IF Sum THEN Statement [ELSE Statement]`. -/
def ifStatement : Nat → Parse Stmt
  | 0 => throw .outOfFuel
  | fuel + 1 => do
    let _ ← take .kwIf
    let condition ← sum fuel
    let _ ← take .kwThen
    let thenBranch ← statement fuel
    if ← skip .kwElse then return .ifElse condition thenBranch (← statement fuel)
    else return .ifThen condition thenBranch

/-- `WHILE Sum DO Statement`. -/
def whileStatement : Nat → Parse Stmt
  | 0 => throw .outOfFuel
  | fuel + 1 => do
    let _ ← take .kwWhile
    let condition ← sum fuel
    let _ ← take .kwDo
    return .whileLoop condition (← statement fuel)

/-- `FOR Name ":=" Sum TO Sum DO CompoundStatement`. -/
def forStatement : Nat → Parse Stmt
  | 0 => throw .outOfFuel
  | fuel + 1 => do
    let _ ← take .kwFor
    let name ← take .identifier
    let _ ← take .assign
    let start ← sum fuel
    if !(← skip .kwTo) then throw .direction
    let stop ← sum fuel
    let _ ← take .kwDo
    return .forLoop name start stop (← compound fuel)

/-- `BEGIN {Statement [";"]} END`. -/
def compound : Nat → Parse (List Stmt)
  | 0 => throw .outOfFuel
  | fuel + 1 => do
    let _ ← take .kwBegin
    let inner ← statements fuel
    let _ ← take .kwEnd
    return inner

/-- The statements up to `END`. -/
def statements : Nat → Parse (List Stmt)
  | 0 => throw .outOfFuel
  | fuel + 1 => do
    if (← kind) = .kwEnd then return []
    else
      let first ← statement fuel
      let _ ← skip .semicolon
      return first :: (← statements fuel)

end

/-- A type: a name. An array type is read to its end and then found not to be buildable. -/
def typeName : Parse String := do
  if ← skip .kwArray then
    let _ ← take .lbracket
    let low ← take .number
    let _ ← take .twoDots
    let high ← take .number
    let _ ← take .rbracket
    let _ ← take .kwOf
    let _ ← take .identifier
    if (Text.readInt? low).isNone || (Text.readInt? high).isNone then throw .badNumber
    throw .cannotBuild
  else take .identifier

def moreNames : Nat → Parse Unit
  | 0 => throw .outOfFuel
  | fuel + 1 => do
    if ← skip .comma then
      let _ ← take .identifier
      moreNames fuel
    else return ()

/-- `VAR {Names ":" Type ";"}`, where a declaration is read to its end and then found not to be
buildable. -/
def variableSection (fuel : Nat) : Parse Unit := do
  let _ ← take .kwVar
  if (← kind) = .identifier then
    let _ ← take .identifier
    moreNames fuel
    let _ ← take .colon
    let _ ← typeName
    let _ ← take .semicolon
    throw .cannotBuild

/-- `Variables CompoundStatement`. -/
def block (fuel : Nat) : Parse (List Stmt) := do
  variableSection fuel
  compound fuel

/-- `Name Name ";" Block`. The first name is the word that starts a program. -/
def program (fuel : Nat) : Parse Program := do
  let _ ← take .identifier
  let name ← take .identifier
  let _ ← take .semicolon
  return { name, statements := ← block fuel }

end MiniPascal.Layered
