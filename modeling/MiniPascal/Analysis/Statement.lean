import MiniPascal.Analysis.Expression

/-!
# Checking Statements

Statements are checked in order, and each gives its code. What is no statement of a known kind is
passed over, a compound statement inside another one included.
-/

namespace MiniPascal.Checking

open Check Typing

/-- Checks that the array that an expression names fits the array that is assigned to. -/
def checkArrayValue (info value : Tree) : Check Unit := do
  let element ← info.get "element_type"
  let found ← typeOf false value
  if !found.isNamed "array" then refuse (.arrayValue (← found.toTree.plain))
  let other ← lookup value.soleName
  let otherElement ← (← other.info).get "element_type"
  if !element.same otherElement then
    refuse (.arrayElementTypes (← element.plain) (← otherElement.plain))
  if !(← info.get "dimensions").same (← (← other.info).get "dimensions") then
    refuse .arrayDimensions

def checkAssign (target value : Tree) : Check Code := do
  match target with
  | .text name =>
    let symbol ← lookup target
    if !symbol.isTruthy then refuse (.undeclaredVariable name)
    let info ← symbol.info
    let type ← info.get "type"
    if type.isTextOf "array" then checkArrayValue info value
    let _ ← checkExpression type value
  | .arrayAccess .. =>
    let _ ← checkExpression .null target
    let element ← elementType target
    let found ← typeOf false value
    if !found.agrees (.known element) then
      refuse (.elementValue (← found.toTree.plain) (← element.plain))
    let _ ← checkExpression element value
  | .fieldAccess record field =>
    let _ ← checkFieldAccess .null field record
    let type ← fieldType field record
    if type.isNull then refuse (.unknownFieldType (← target.plain))
    let _ ← checkExpression type value
  | _ => refuse .badTarget
  generate (.assign target value)

/-- Checks an expression that must be of the type of the given name; `wrong` is the refusal of
another type. -/
def checkTyped (name : String) (wrong : String → SemanticCause) (t : Tree) : Check Unit := do
  let found ← typeOf false t
  if !found.isNamed name then refuse (wrong (← found.toTree.plain))
  let _ ← checkExpression (.text name) t

def checkLoopVariable (name : Tree) : Check Unit := do
  let symbol ← lookup name
  if symbol.isNull then refuse (.undeclaredLoopVariable (← name.plain))
  let type ← (← symbol.info).get "type"
  if !type.isTextOf "integer" then refuse (.loopVariableType (← name.plain) (← type.plain))

/-- Checks what stands before the body of a loop over a range. -/
def checkRange (name start direction stop : Tree) : Check Unit := do
  checkLoopVariable name
  checkTyped "integer" .loopStart start
  checkTyped "integer" .loopStop stop
  if !(direction.isTextOf "to" || direction.isTextOf "downto") then
    refuse (.loopDirection (← direction.plain))

/-- Checks the arguments of a call of a procedure against its parameters. An array settles the
matter: what comes after it is not looked at. -/
def checkProcedureArguments (name : Tree) : List (Tree × Tree) → Check Unit
  | [] => return
  | (parameter, argument) :: rest => do
    match ← parameter.entry "type" with
    | .arrayType dimensions element _ =>
      let found := (← typeOf true argument).toTree
      let foundDimensions ← found.entry "dimensions"
      if !dimensions.same foundDimensions then
        refuse (.argumentDimensions (← dimensions.plain) (← foundDimensions.plain))
      let foundElement ← found.entry "element_type"
      if !element.same foundElement then
        refuse (.argumentElements (← element.plain) (← foundElement.plain))
    | wanted =>
      let found ← typeOf false argument
      if !found.agrees (.known wanted) then
        refuse (.procedureArgument (← name.plain) (← (← parameter.entry "name").plain)
          (← wanted.plain) (← found.toTree.plain))
      checkProcedureArguments name rest

def checkProcedureCall (call : Tree) : Check Code := do
  let name ← call.part "identifier"
  let symbol ← lookup name
  if !symbol.isTruthy then refuse (.undeclaredProcedure (← name.plain))
  if !(← symbol.get "kind").isTextOf "procedure" then refuse (.notAProcedure (← name.plain))
  match ← pairArguments symbol call with
  | .inl pairs => checkProcedureArguments name pairs
  | .inr (wanted, found) => refuse (.procedureArity (← name.plain) wanted found)
  generate call

mutual

/-- Checks a statement and gives its code, if it is of a known kind. -/
def checkStatement : Tree → Check (Option Code)
  | .assign target value => do return some (← checkAssign target value)
  | .forLoop name start direction stop body => do
    checkRange name start direction stop
    let _ ← checkCompound body
    return some (← generate (.forLoop name start direction stop body))
  | .whileLoop condition body => do
    checkTyped "boolean" .whileCondition condition
    let _ ← checkCompound body
    return some (← generate (.whileLoop condition body))
  | .ifElse condition thenBranch elseBranch => do
    checkTyped "boolean" .ifCondition condition
    let _ ← checkCompound thenBranch
    if elseBranch.isTruthy then
      let _ ← checkCompound elseBranch
    return some (← generate (.ifElse condition thenBranch elseBranch))
  | .procedureCall name arguments => do
    return some (← checkProcedureCall (.procedureCall name arguments))
  | _ => return none

def checkCompound : Tree → Check (List Code)
  | .compound statements => checkStatements statements
  | _ => fail .noSuchPart

def checkStatements : Tree → Check (List Code)
  | .list statements | .tuple statements => checkStatementList statements
  | .text _ | .dict _ => return []
  | _ => fail .wrongKind

def checkStatementList : List Tree → Check (List Code)
  | [] => return []
  | first :: rest => do
    let code ← checkStatement first
    return code.toList ++ (← checkStatementList rest)

end

/-- Checks a node of any kind as a loop over a range. A node of another kind may name a variable as
well, but it has no range. -/
def checkAsForLoop : Tree → Check (Option Code)
  | .forLoop name start direction stop body =>
    checkStatement (.forLoop name start direction stop body)
  | t => do
    checkLoopVariable (← t.part "identifier")
    fail .noSuchPart

/-- Checks a node that has a condition, but no statements that depend on it. -/
def checkConditionOnly (wrong : String → SemanticCause) (t : Tree) : Check (Option Code) := do
  checkTyped "boolean" wrong (← t.part "condition")
  fail .noSuchPart

/-- Checks a node of any kind as a loop with a condition. -/
def checkAsWhileLoop : Tree → Check (Option Code)
  | .whileLoop condition body => checkStatement (.whileLoop condition body)
  | t => checkConditionOnly .whileCondition t

/-- Checks a node of any kind as a conditional statement. -/
def checkAsConditional : Tree → Check (Option Code)
  | .ifElse condition thenBranch elseBranch =>
    checkStatement (.ifElse condition thenBranch elseBranch)
  | t => checkConditionOnly .ifCondition t

end MiniPascal.Checking
