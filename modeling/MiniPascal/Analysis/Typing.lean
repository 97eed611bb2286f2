import MiniPascal.Analysis.Basic

/-!
# Types of Expressions

The type of an expression is found without checking the expression: that of a chain of operands is
the type of its first one. A type is a tree, mostly the text of its name. The result types of
functions are kept apart: such a type agrees only with the result type of the same function.
-/

namespace MiniPascal

/-- The type of an expression, or the absent value where it has none. -/
inductive ValueType where
  /-- A type that is compared as a value. -/
  | known (type : Tree)
  /-- The result type of the function that a scope declares under a name. -/
  | resultOf (scope : Nat) (name : String) (type : Tree)

namespace ValueType

def toTree : ValueType → Tree
  | known type => type
  | resultOf _ _ type => type

def agrees : ValueType → ValueType → Bool
  | known a, known b => a.same b
  | resultOf s f _, resultOf t g _ => s == t && f == g
  | _, _ => false

def isNamed (t : ValueType) (name : String) : Bool := t.agrees (known (.text name))

end ValueType

namespace Tree

def accessIndices : Tree → List Tree
  | arrayAccess array (list indices) => accessIndices array ++ indices
  | arrayAccess array index => accessIndices array ++ [index]
  | _ => []

/-- The name that an expression without an operator consists of, if it is one. -/
def soleName : Tree → Tree
  | factor _ name _ _ => name
  | expression left _ _ => soleName left
  | _ => null

def literalType : Tree → String
  | int _ | bool _ => "integer"
  | text s => if s.length = 1 then "char" else "string"
  | _ => "unknown"

end Tree

namespace Typing

open Check

/-- The name of the array that nested accesses start at, and the indices. -/
def flatAccess (access : Tree) : Check (String × List Tree) :=
  match access.arrayBase with
  | .text name => return (name, access.accessIndices)
  | _ => refuse .unnamedArray

def arrayOf (access : Tree) : Check (String × Tree) := do
  let (name, _) ← flatAccess access
  let symbol ← lookup (.text name)
  if !symbol.isTruthy then refuse (.undeclaredArray name)
  let info ← symbol.info
  if !(← info.get "type").isTextOf "array" then refuse (.notAnArray name)
  return (name, info)

def elementType (access : Tree) : Check Tree := do (← arrayOf access).2.get "element_type"

/-- The type of a factor by its value and its name. With `detailed`, all that is known about the
value of the name instead of its type. -/
def factorType (detailed : Bool) (value name : Tree) : Check Tree := do
  if name.isTruthy then
    let symbol ← lookup name
    if detailed then symbol.info
    else if ← symbol.isParameterEntry then return .text (← (← symbol.get "type").plain)
    else if symbol.isTruthy then (← symbol.info).get "type"
    else return .null
  else if value.isNull then return .null
  else return .text value.literalType

/-- The type of a chain of operands: that of the first one. -/
def chainType : Tree → Check Tree
  | .list (.simple terms _ :: _) | .tuple (.simple terms _ :: _) => chainType terms
  | terms => do
    match ← terms.item 0 with
    | .factor value name _ _ => factorType false value name
    | .arrayAccess array index => elementType (.arrayAccess array index)
    | .term .. => fail .noSuchPart
    | _ => return .null

def resultType (name : Tree) : Check ValueType := do
  let symbol ← lookup name
  if !symbol.isTruthy then refuse (.undeclaredFunction (← name.plain))
  let type ← symbol.get "return_type"
  if type.isPlain then return .known type
  let scopes := (← read).scopes
  match name with
  | .text n =>
    match scopes.resolve scopes.current n with
    | some (scope, _) => return .resultOf scope n type
    | none => return .known type
  | _ => return .known type

/-- The type of an expression. With `detailed`, all that is known about the value of a name instead
of its type. -/
def typeOf (detailed : Bool) : Tree → Check ValueType
  | .functionCall name _ => resultType name
  | .expression left operator right => do
    if operator.isTruthy then
      let l ← typeOf detailed left
      let r ← typeOf detailed right
      if !l.agrees r then
        refuse (.comparison (← l.toTree.plain) (← r.toTree.plain) (← operator.plain))
      return .known (.text "boolean")
    else
      match left with
      | .factor value name _ _ => return .known (← factorType detailed value name)
      | .simple terms _ => return .known (← chainType terms)
      | .arrayAccess array index => return .known (← elementType (.arrayAccess array index))
      | _ => return .known .null
  | .factor value name _ _ => do return .known (← factorType detailed value name)
  | .simple .. => fail .wrongKind
  | .arrayAccess array index => do return .known (← elementType (.arrayAccess array index))
  | _ => return .known .null

/-- What a record type says about a field of the given name, if it has one. -/
def findField (record field : Tree) : Check (Option Tree) := do
  let infos := (← record.get? "fields_info").getD (.list [])
  search (← infos.elements)
where
  /-- The first entry for the field. -/
  search : List Tree → Check (Option Tree)
    | [] => return none
    | info :: rest => do
      if (← info.entry "field_name").same field then return some info else search rest

def fieldTypeIn (type field : Tree) : Check Tree := do
  let record ← lookup type
  if ← record.isRecordEntry then
    match ← findField record field with
    | some info => info.entry "field_type"
    | none => return .null
  else return .null

def recordTypeOf (symbol : Tree) : Check Tree := do
  let type ← (← symbol.info).get "record_type"
  if ← symbol.isParameterEntry then return .text (← (← symbol.get "type").plain) else return type

/-- The type of a field of a record, or the absent value where it cannot be found. -/
def fieldType (field : Tree) : Tree → Check Tree
  | .text name => do
    let symbol ← lookup (.text name)
    if !symbol.isTruthy then return .null
    let type ← recordTypeOf symbol
    if type.isTruthy then fieldTypeIn type field else return .null
  | .fieldAccess record inner => do
    let type ← fieldType inner record
    if type.isTruthy then fieldTypeIn type field else return .null
  | .arrayAccess array index => do
    let (name, _) ← flatAccess (.arrayAccess array index)
    let symbol ← lookup (.text name)
    if !symbol.isTruthy then return .null
    let info ← symbol.info
    if (← info.get "type").isTextOf "array" then fieldTypeIn (← info.get "element_type") field
    else return .null
  | _ => return .null

end Typing

end MiniPascal
