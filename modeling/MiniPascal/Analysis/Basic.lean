import MiniPascal.Analysis.Cause
import MiniPascal.Scope

/-!
# Analyses

The state of an analysis is the scopes opened so far and the code of the last block that was
completed. Checking an initial value, an expression or a statement only reads that state; declaring
something changes it.
-/

namespace MiniPascal

/-- The state of an analysis. -/
structure Analysis where
  /-- The scopes opened so far. -/
  scopes : Scopes
  /-- The code of the last block that was completed. Code is generated only while there is none. -/
  code : Option Tree

namespace Analysis

def start : Analysis := { scopes := Scopes.empty, code := none }

/-- The number of names in all scopes. -/
def symbolCount (a : Analysis) : Nat :=
  a.scopes.all.foldl (fun count scope => count + scope.symbols.length) 0

end Analysis

/-- A check reads the state of an analysis and may fail. -/
abbrev Check := ReaderT Analysis (Except AnalysisError)

instance : MonadLift (Except Fault) Check where
  monadLift step := fun _ => step.mapError .fault

instance : MonadLift (Except GenerateError) Check where
  monadLift step := fun _ => step.mapError AnalysisError.ofGenerateError

namespace Check

def refuse {α : Type} (cause : SemanticCause) : Check α := throw (.semantic cause)

/-- Fails because of the shape of a tree. -/
def fail {α : Type} (fault : Fault) : Check α := throw (.fault fault)

/-- What is known about a name, or the absent value. -/
def lookup (name : Tree) : Check Tree := do
  let scopes := (← read).scopes
  scopes.lookupTree scopes.current name

def generate (t : Tree) : Check Code := do
  match (← read).code with
  | some _ => fail .noSuchPart
  | none => t.generate

end Check

/-- The types that are not built from others. -/
inductive BasicType where
  | integer
  | string
  | boolean
  | char
  deriving DecidableEq, Repr

namespace BasicType

def name : BasicType → String
  | integer => "integer"
  | string => "string"
  | boolean => "boolean"
  | char => "char"

def ofName? (s : String) : Option BasicType :=
  [integer, string, boolean, char].find? (·.name == s)

/-- The basic type that a tree names. Lists and dictionaries cannot be asked. -/
def ofTree? (t : Tree) : Except Fault (Option BasicType) :=
  match t with
  | .text s => .ok (ofName? s)
  | _ => if t.isKey then .ok none else .error .wrongKind

/-- The basic type that a tree names among those that fields of records have. -/
def ofFieldType? (t : Tree) : Except Fault (Option BasicType) := do
  return (← ofTree? t).filter (· != char)

/-- Whether a value belongs to a basic type. A truth value is also an integer. -/
def admits (b : BasicType) (value : Tree) : Bool :=
  match b with
  | integer => value.isInt
  | string | char => value.isText
  | boolean => value matches .bool _

def kindName : BasicType → String
  | integer => "int"
  | string | char => "str"
  | boolean => "bool"

def title : BasicType → String
  | integer => "Integer"
  | string => "String"
  | boolean => "Boolean"
  | char => "Char"

/-- The value that parts of arrays and records have before they are set. -/
def initial : BasicType → Tree
  | integer => .int 0
  | string => .text ""
  | boolean => .bool false
  | char => .text "\x00"

/-- The value that a variable has before it is set. -/
def initialVariable : BasicType → Tree
  | integer => .int 0
  | _ => .text ""

end BasicType

end MiniPascal
