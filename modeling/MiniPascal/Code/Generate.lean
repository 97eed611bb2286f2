import MiniPascal.Code
import MiniPascal.Text.Case
import MiniPascal.Tree.Outline

/-!
# Generating Code

The code of a tree. Only statements, expressions, calls, accesses and routines have code. A loop
over a range becomes an assignment of its start, followed by a loop that runs while the end is not
passed and counts up after each pass.
-/

namespace MiniPascal

/-- Why no code can be generated. -/
inductive GenerateError where
  /-- The tree does not have the shape that is needed. -/
  | fault (fault : Fault)
  /-- A factor with nothing in it, by its outline. -/
  | emptyFactor (outline : String)
  /-- A loop that does not count upward. -/
  | direction (written : String)
  /-- An array access that does not start at a name. -/
  | unnamedArray
  deriving Repr, DecidableEq

def GenerateError.message? : GenerateError → Option String
  | fault _ => none
  | emptyFactor outline => some s!"Неизвестный фактор: {outline}"
  | direction written => some s!"Неподдерживаемое направление цикла: {written}"
  | unnamedArray => some "Ошибка: не распознано имя массива при обращении"

namespace Tree

def orFault {α : Type} (step : Except Fault α) : Except GenerateError α :=
  step.mapError .fault

/-- What nested array accesses start at. -/
def arrayBase : Tree → Tree
  | arrayAccess array _ => arrayBase array
  | t => t

/-- The name that nested array accesses have to start at. -/
def baseName (t : Tree) : Except GenerateError String :=
  match t.arrayBase with
  | text base => .ok base
  | _ => .error .unnamedArray

/-- The literal value of a factor as code, if it has one. -/
def literalCode? : Tree → Option Code
  | text s =>
    match s.toList with
    | [c] => some (.char c.toNat)
    | _ => some (.string s)
  | int n => some (.integer (int n))
  | bool b => some (.integer (bool b))
  | _ => none

def lowered : Tree → Except GenerateError String
  | text s => .ok (Text.toLower s)
  | _ => .error (.fault .noSuchPart)

/-- The code of characters as operands and operators in turn. A character has no code. -/
def joinChars (left : Code) : List Char → Except GenerateError Code
  | [] => .ok left
  | [_] => .error (.fault .outOfRange)
  | operator :: _ :: rest => joinChars (.binary (text operator.toString) left .nothing) rest

mutual

def generate : Tree → Except GenerateError Code
  | compound statements => do return .block (← generateElements statements)
  | assign target value => do
    let place ←
      if target matches arrayAccess .. | fieldAccess .. then generate target
      else .ok (.name target)
    return .assign place (← generate value)
  | forLoop name start direction stop body => do
    let first ← generate start
    if (← lowered direction) = "to" then
      let last ← generate stop
      let inner ← generate body
      return .block [.assign (.name name) first,
        .whileLoop (.compare (text "<=") (.name name) last)
          (.block [inner,
            .assign (.name name)
              (.binary (text "+") (.name name) (.integer (int 1)))])]
    else throw (.direction (← orFault direction.plain))
  | whileLoop condition body => do
    let test ← generate condition
    return .whileLoop test (← generate body)
  | expression left operator right => do
    if operator.isTruthy then
      let l ← generate left
      return .compare operator l (← generate right)
    else generate left
  | simple terms _ => generateTerms terms
  | factor value name inner negated => do
    if inner.isTruthy then generate inner
    else if name.isTruthy then return .name name
    else
      match literalCode? value with
      | some code => return code
      | none =>
        let shown ← orFault (factor value name inner negated).outline
        throw (.emptyFactor (← orFault shown.plain))
  | arrayAccess array (list indices) => do
    let base ← baseName array
    let outer ← generateIndices array
    return .element base (outer ++ (← generateAll indices))
  | arrayAccess array index => do
    let base ← baseName array
    let outer ← generateIndices array
    return .element base (outer ++ [← generate index])
  | fieldAccess record field => do
    let base ← if record.isText then .ok (.name record) else generate record
    return .field base field
  | ifElse condition thenBranch elseBranch => do
    let test ← generate condition
    let yes ← generate thenBranch
    let no ← if elseBranch.isNull then .ok .nothing else generate elseBranch
    return .ifElse test yes no
  | routine kind name parameters body result => do
    let word ← lowered kind
    let shown ← if parameters.isTruthy then orFault (renderElements parameters) else .ok []
    let inner ← if body.isTruthy then generate body else .ok .nothing
    return .routine (word = "procedure") name shown inner
      (if word = "function" then result else null)
  | procedureCall name arguments => do
    let given ← if arguments.isTruthy then generateElements arguments else .ok []
    return .procedureCall name given
  | functionCall name arguments => do
    let given ← if arguments.isTruthy then generateElements arguments else .ok []
    return .functionCall name given
  | _ => .ok .nothing

def generateAll : List Tree → Except GenerateError (List Code)
  | [] => .ok []
  | t :: ts => do
    let first ← generate t
    return first :: (← generateAll ts)

def generateElements : Tree → Except GenerateError (List Code)
  | list ts | tuple ts => generateAll ts
  | text s => .ok (s.toList.map fun _ => .nothing)
  | dict es => .ok (es.map fun _ => .nothing)
  | _ => .error (.fault .wrongKind)

def generateTerms : Tree → Except GenerateError Code
  | list [] | tuple [] => .error (.fault .outOfRange)
  | list (t :: rest) | tuple (t :: rest) => do joinTerms (← generate t) rest
  | text s =>
    match s.toList with
    | [] => .error (.fault .outOfRange)
    | _ :: rest => joinChars .nothing rest
  | dict _ => .error (.fault .missingKey)
  | _ => .error (.fault .wrongKind)

def joinTerms (left : Code) : List Tree → Except GenerateError Code
  | [] => .ok left
  | [_] => .error (.fault .outOfRange)
  | operator :: t :: rest => do
    let right ← generate t
    joinTerms (.binary operator left right) rest

def generateIndices : Tree → Except GenerateError (List Code)
  | arrayAccess array (list indices) => do
    let outer ← generateIndices array
    return outer ++ (← generateAll indices)
  | arrayAccess array index => do
    let outer ← generateIndices array
    return outer ++ [← generate index]
  | _ => .ok []

end

end Tree

end MiniPascal
