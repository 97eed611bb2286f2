import MiniPascal.Analysis.Typing

/-!
# Checking Expressions

An expression is checked against the type that its surroundings expect; the absent value stands for
no expectation. The result is the code of the expression. An index whose code holds literals is
taken to have their sum as its value and is compared with the bounds of its dimension.
-/

namespace MiniPascal

namespace Tree

def chainOperators : List String := ["+", "-", "or", "*", "div", "mod", "and"]

mutual

/-- The values of the literals in code that are not negative. Code holds no nodes. -/
def literals : Tree → Except Fault (List Nat)
  | list xs | tuple xs => itemLiterals xs
  | dict es => entryLiterals es
  | null | bool _ | int _ | real _ | text _ => .ok []
  | _ => .error .wrongKind

def itemLiterals : List Tree → Except Fault (List Nat)
  | [] => .ok []
  | x :: xs => do
    let first ← literals x
    return first ++ (← itemLiterals xs)

def entryLiterals : List (String × Tree) → Except Fault (List Nat)
  | [] => .ok []
  | (name, value) :: rest => do
    let inner ← literals value
    let own := match value with
      | int (.ofNat n) => if name = "value" then [n] else []
      | _ => []
    return own ++ inner ++ (← entryLiterals rest)

end

/-- The sum of the literals in code, if it has any. -/
def literalSum? (code : Tree) : Except Fault (Option Tree) := do
  match ← literals code with
  | [] => return none
  | values => return some (int (values.foldl (· + ·) 0 : Nat))

def isBetween (low value high : Tree) : Except Fault Bool := do
  let below ← order low value
  if below == some .lt || below == some .eq then
    let above ← order value high
    return above == some .lt || above == some .eq
  else return false

end Tree

namespace Checking

open Check Typing

/-- Checks a literal against the expected type. -/
def checkLiteral (expected value : Tree) : Check Unit := do
  match ← BasicType.ofTree? expected with
  | some basic =>
    if !basic.admits value then
      refuse (.literalType (← value.plain) value.kindName (← expected.plain))
  | none => return

/-- Checks the variable or constant of a name against the expected type. -/
def checkVariable (expected name : Tree) : Check Unit := do
  let symbol ← lookup name
  if !symbol.isTruthy then refuse (.undeclaredVariable (← name.plain))
  let info ← symbol.info
  let own ← info.get "type"
  let type ← if ← symbol.isParameterEntry then symbol.get "type" else pure own
  if expected.isNull then return
  if (← type.plain) ≠ (← expected.plain) then
    let found ← if type.isTextOf "record" then info.get "record_type" else pure type
    if !type.isTextOf "record" || !found.same expected then
      refuse (.variableType (← found.plain) (← expected.plain) (← name.plain))

/-- Checks a factor without a value against the expected type. -/
def checkEmpty (expected : Tree) : Check Unit := do
  let symbol ← lookup expected
  if symbol.isTruthy then
    if (← (← symbol.info).get "type").isTextOf "array" then
      refuse (.literalForArray "None" (← expected.plain))
  checkLiteral expected .null

/-- The dimensions of the array that nested accesses start at, one for each index. -/
def accessDimensions (access : Tree) : Check (List Tree) := do
  let (_, indices) ← flatAccess access
  let (name, info) ← arrayOf access
  let dimensions ← ((← info.get? "dimensions").getD (.list [])).elements
  if indices.length ≠ dimensions.length then
    refuse (.indexCount name dimensions.length indices.length)
  return dimensions

/-- The value of an index, where it can be told; `check` gives the code of the index. -/
def indexValue (index : Tree) (check : Check Code) : Check (Option Tree) := do
  match index with
  | .factor value _ _ _ =>
    if value.isInt then return some value else refuse (.badIndex (← index.plain))
  | .expression .. => (← check).toTree.literalSum?
  | _ => refuse (.badIndex (← index.plain))

/-- Checks the next index of an access against the first of the remaining dimensions, and gives
those that remain then with the number of indices checked so far. -/
def checkBounds (dimensions : List Tree) (position : Nat) (value : Check (Option Tree)) :
    Check (List Tree × Nat) := do
  match dimensions with
  | [] => return ([], position)
  | dimension :: rest =>
    let (low, high) ← dimension.pair
    match ← value with
    | none => return (rest, position + 1)
    | some index =>
      if !(← low.isBetween index high) then
        refuse (.indexOutOfBounds (← index.plain) (← low.plain) (← high.plain) (position + 1))
      return (rest, position + 1)

def requireField (record field : Tree) (missing : Check Tree) : Check Tree := do
  match ← findField record field with
  | some info => info.entry "field_type"
  | none => missing

def variableField (name : String) (field : Tree) : Check Tree := do
  let symbol ← lookup (.text name)
  if !symbol.isTruthy then refuse (.undeclaredRecord name)
  let type ← recordTypeOf symbol
  if !type.isTruthy then refuse (.notARecord name)
  let record ← lookup type
  if !(← record.isRecordEntry) then refuse (.badRecordType (← type.plain))
  requireField record field do refuse (.missingField (← field.plain) (← type.plain))

def elementField (access field : Tree) : Check Tree := do
  let (name, info) ← arrayOf access
  let type ← info.get "element_type"
  if !type.isTruthy then refuse (.noElementType name)
  let record ← lookup type
  if !(← record.isRecordEntry) then refuse (.elementNotRecord name)
  requireField record field do refuse (.missingField (← field.plain) (← type.plain))

/-- The type of a field of the record that a field of another record is. -/
def nestedField (outer inner field : Tree) : Check Tree := do
  let access := Tree.fieldAccess outer inner
  let type ← fieldType inner outer
  if !type.isTruthy then refuse (.nestedRecordType (← access.plain))
  let record ← lookup type
  if !(← record.isRecordEntry) then refuse (.nestedNotRecord (← access.plain))
  requireField record field do refuse (.missingNestedField (← field.plain) (← access.plain))

/-- The parameters of a routine and the arguments of a call of it, or their numbers if they
differ. -/
def pairArguments (symbol call : Tree) : Check (List (Tree × Tree) ⊕ (Nat × Nat)) := do
  let parameters ← ((← symbol.get? "parameters").getD (.list [])).elements
  let given ← (← call.part "arguments").elements
  if parameters.length = given.length then return .inl (parameters.zip given)
  else return .inr (parameters.length, given.length)

/-- A type as arguments of functions are compared: without case and surrounding blanks. -/
def foldedType (type : Tree) : Check String := do
  return Text.trimBlanks (Text.toLower (← type.plain))

/-- Checks the arguments of a call of a function against its parameters. -/
def checkFunctionArguments (name : Tree) : List (Tree × Tree) → Check Unit
  | [] => return
  | (parameter, argument) :: rest => do
    let wanted ← parameter.entry "type"
    let found := (← typeOf false argument).toTree
    if (← foldedType found) ≠ (← foldedType wanted) then
      refuse (.functionArgument (← name.plain) (← (← parameter.entry "name").plain)
        (← wanted.plain) (← found.plain))
    checkFunctionArguments name rest

def checkFunctionCall (call : Tree) : Check Code := do
  let name ← call.part "identifier"
  let symbol ← lookup name
  if !symbol.isTruthy then refuse (.undeclaredFunction (← name.plain))
  if !(← symbol.get "kind").isTextOf "function" then refuse (.notAFunction (← name.plain))
  match ← pairArguments symbol call with
  | .inl pairs => checkFunctionArguments name pairs
  | .inr (wanted, found) => refuse (.functionArity (← name.plain) wanted found)
  generate call

/-- Checks what stands among the operands of a chain and is none: it must be an operator. -/
def checkLooseTerm (term : Tree) : Check Unit := do
  if !Tree.chainOperators.any term.isTextOf then refuse (.badTerm (← term.plain))

/-- Compares the type of a field with the expected type and gives the code of the access. -/
def finishFieldAccess (expected field record type : Tree) : Check Code := do
  if expected.isTruthy && !type.same expected then
    refuse (.fieldTypeExpected (← expected.plain) (← type.plain) (← field.plain))
  generate (.fieldAccess record field)

mutual

/-- Checks an expression against the expected type and gives its code. -/
def checkExpression (expected : Tree) : Tree → Check Code
  | .expression left operator right => do
    if operator.isTruthy then
      let l ← typeOf false left
      let r ← typeOf false right
      if !l.agrees r then
        refuse (.comparison (← l.toTree.plain) (← r.toTree.plain) (← operator.plain))
      let _ ← checkExpression .null left
      let _ ← checkExpression .null right
      let code ← generate (.expression left operator right)
      if !expected.isNull && !expected.isTextOf "boolean" then
        refuse (.comparisonNotExpected (← expected.plain))
      return code
    else checkExpression expected left
  | .factor value name inner negated => do
    let whole := Tree.factor value name inner negated
    let _ ← whole.outline
    if inner.isTruthy then
      if inner matches .factor .. | .expression .. then checkExpression expected inner
      else return .nothing
    else
      if name.isTruthy then checkVariable expected name
      else if value.isNull then checkEmpty expected
      else checkLiteral expected value
      generate whole
  | .simple terms operator => do
    let _ ← (Tree.simple terms operator).outline
    checkChain expected terms
    generate (.simple terms operator)
  | .arrayAccess array (.list indices) => do
    let dimensions ← accessDimensions (.arrayAccess array (.list indices))
    let (rest, position) ← checkIndices dimensions 0 array
    let _ ← checkIndexList rest position indices
    return .nothing
  | .arrayAccess array index => do
    let dimensions ← accessDimensions (.arrayAccess array index)
    let (rest, position) ← checkIndices dimensions 0 array
    let _ ← checkBounds rest position (indexValue index (checkExpression (.text "integer") index))
    return .nothing
  | .functionCall name arguments => checkFunctionCall (.functionCall name arguments)
  | .fieldAccess record field => checkFieldAccess .null field record
  | t => refuse (.unsupportedNode t.kindDisplay)
termination_by structural t => t

def checkChain (expected : Tree) : Tree → Check Unit
  | .list terms | .tuple terms => checkTerms expected terms
  | terms => do (← terms.elements).forM checkLooseTerm
termination_by structural t => t

def checkTerms (expected : Tree) : List Tree → Check Unit
  | [] => return
  | .fieldAccess record field :: rest => do
    let _ ← checkFieldAccess expected field record
    checkTerms expected rest
  | term :: rest => do
    if term matches .factor .. | .simple .. | .arrayAccess .. then
      let _ ← checkExpression expected term
    else if term matches .term .. then fail .noSuchPart
    else if term.isKey then checkLooseTerm term
    else fail .wrongKind
    checkTerms expected rest
termination_by structural ts => ts

/-- Checks the indices of nested array accesses, the innermost first, and gives the dimensions that
remain with the number of indices checked so far. -/
def checkIndices (dimensions : List Tree) (position : Nat) : Tree → Check (List Tree × Nat)
  | .arrayAccess array (.list indices) => do
    let (rest, next) ← checkIndices dimensions position array
    checkIndexList rest next indices
  | .arrayAccess array index => do
    let (rest, next) ← checkIndices dimensions position array
    checkBounds rest next (indexValue index (checkExpression (.text "integer") index))
  | _ => return (dimensions, position)
termination_by structural t => t

def checkIndexList (dimensions : List Tree) (position : Nat) :
    List Tree → Check (List Tree × Nat)
  | [] => return (dimensions, position)
  | index :: rest => do
    let (others, next) ← checkBounds dimensions position
      (indexValue index (checkExpression (.text "integer") index))
    checkIndexList others next rest
termination_by structural ts => ts

def checkFieldAccess (expected field : Tree) : Tree → Check Code
  | .text name => do
    finishFieldAccess expected field (.text name) (← variableField name field)
  | .fieldAccess outer inner => do
    finishFieldAccess expected field (.fieldAccess outer inner) (← nestedField outer inner field)
  | .arrayAccess array (.list indices) => do
    let record := Tree.arrayAccess array (.list indices)
    let dimensions ← accessDimensions record
    let (rest, position) ← checkIndices dimensions 0 array
    let _ ← checkIndexList rest position indices
    finishFieldAccess expected field record (← elementField record field)
  | .arrayAccess array index => do
    let record := Tree.arrayAccess array index
    let dimensions ← accessDimensions record
    let (rest, position) ← checkIndices dimensions 0 array
    let _ ← checkBounds rest position (indexValue index (checkExpression (.text "integer") index))
    finishFieldAccess expected field record (← elementField record field)
  | _ => refuse .badRecordObject
termination_by structural t => t

end

end Checking

end MiniPascal
