import MiniPascal.Analysis.Initial
import MiniPascal.Analysis.Statement

/-!
# Declarations and Blocks

Declaring names one after the other. A step that fails leaves the state as it was when it failed:
names declared before stay declared, and the scope of a routine whose body is refused stays the
current one.

A block ends in a scope of its own, which stays the current one, and no code is generated after it.
A routine gives both back: after its body the scope around it is current again.
-/

namespace MiniPascal

/-- A step that changes the state of an analysis and may fail. -/
abbrev Declare := ExceptT AnalysisError (StateM Analysis)

instance : MonadLift Check Declare where
  monadLift check := fun state => (check state, state)

namespace Declaring

open Check Checking Initial

def declareIn (scope : Nat) (name info : Tree) : Declare Unit := do
  let key ← (name.key : Check String)
  match (← get).scopes.declareIn? scope key info with
  | some scopes => modify ({ · with scopes })
  | none => throw (.duplicate key)

def declare (name info : Tree) : Declare Unit := do
  declareIn (← get).scopes.current name info

/-- What is known about a field of a record type. Types of fields other than names and arrays are
passed over. -/
def fieldInfo (name type : Tree) : Check (Option Tree) := do
  match type with
  | .typeName typeName _ =>
    if !(typeName.isTextOf "integer" || typeName.isTextOf "string") then
      if !(← lookup typeName).isTruthy then
        refuse (.fieldType (← typeName.plain) (← name.plain))
    return some (.dict [("field_name", name), ("field_type", typeName)])
  | .arrayType dimensions element initial =>
    let described ← arrayInfo .storage element dimensions initial
    return some (.dict [("field_name", name), ("field_type", .text "array"),
      ("arr_info", described)])
  | _ => return none

/-- What is known about the fields of a record type. -/
def fieldInfoList : List Tree → Check (List Tree)
  | [] => return []
  | field :: rest => do
    let (name, type) ← field.pair
    let first ← fieldInfo name type
    return first.toList ++ (← fieldInfoList rest)

/-- Declares a type. Only record and array types are declared. -/
def declareType (name type : Tree) : Declare Unit := do
  match type with
  | .recordType fields =>
    let infos ← (do fieldInfoList (← fields.elements) : Check (List Tree))
    declare name (.dict [("name", name), ("type", .text "record"), ("fields_info", .list infos)])
  | .arrayType dimensions element initial =>
    let described ← arrayInfo .storage element dimensions initial
    declare name (.dict [("info", described)])
  | _ => return

def declareConstant (name value : Tree) : Declare Unit := do
  let info ← constantInfo value
  declare name (.dict [("type", .text "const"), ("info", info)])

def declareVariable (name type initial : Tree) : Declare Tree := do
  let filled ← (filledType type : Check Tree)
  let info ← variableInfo filled initial
  declare name (.dict [("type", .text "var"), ("info", info)])
  return filled

def declareParameters : List Tree → Declare Unit
  | [] => return
  | parameter :: rest => do
    let type ← (parameter.part "type_node" : Check Tree)
    let info ← variableInfo type .null
    let name ← (parameter.part "identifier" : Check Tree)
    declare name (.dict [("kind", .text "parameter"), ("type", info)])
    declareParameters rest

/-- Names and types of the parameters of a routine, an array type being replaced by the text
`array`, and what is known about the last array among them. -/
def parameterTypes : List Tree → Option Tree → Check (List (Tree × Tree) × Option Tree)
  | [], array => return ([], array)
  | parameter :: rest, array => do
    let declared ← parameter.part "type_node"
    let (type, array) ←
      match declared with
      | .arrayType dimensions element initial => do
        let described ← arrayInfo .storage element dimensions initial
        pure (Tree.text "array", some described)
      | _ => pure (declared, array)
    let name ← parameter.part "identifier"
    let (others, last) ← parameterTypes rest array
    return ((name, type) :: others, last)

/-- Declares the parameters of a routine in its scope. All arrays get what is known about the last
one. -/
def declareLocals (scope : Nat) (array : Option Tree) : List (Tree × Tree) → Declare Unit
  | [] => return
  | (name, type) :: rest => do
    if type.isTextOf "array" then
      match array with
      | some described =>
        declareIn scope name (.dict [("kind", .text "parameter"), ("info", described)])
      | none => throw (.fault .unset)
    else declareIn scope name (.dict [("kind", .text "parameter"), ("type", type)])
    declareLocals scope array rest

def routineInfo (kind result code locals : Tree) (parameters : List (Tree × Tree)) : Tree :=
  .dict [("kind", kind),
    ("parameters", .list (parameters.map fun (name, type) =>
      .dict [("name", name), ("type", type)])),
    ("return_type", result), ("block_code", code), ("local_symbol_table", locals)]

/-- A routine whose body is being analysed. -/
structure OpenRoutine where
  /-- The scope that declares the routine. -/
  home : Nat
  /-- The scope of the parameters. -/
  locals : Nat
  /-- The code of the last block before the routine. -/
  code : Option Tree
  /-- Names and types of the parameters. -/
  parameters : List (Tree × Tree)

def checkNewRoutine (kind name : Tree) : Check Unit := do
  if (← lookup name).isTruthy then refuse (.alreadyDeclared (← kind.plain) (← name.plain))

/-- Names and types of the parameters of a routine, if it has any, and what is known about the last
array among them. -/
def routineParameters (parameters : Tree) : Check (List (Tree × Tree) × Option Tree) := do
  if parameters.isTruthy then parameterTypes (← parameters.elements) none else return ([], none)

def enterRoutine (kind name result : Tree) (parameters : List (Tree × Tree))
    (array : Option Tree) : Declare OpenRoutine := do
  declare name (routineInfo kind result .null .null parameters)
  let before ← get
  let home := before.scopes.current
  let (locals, scopes) := before.scopes.openIn (some home) []
  modify ({ · with scopes })
  declareLocals locals array parameters
  modify fun a => { scopes := { a.scopes with current := locals }, code := none }
  return { home, locals, code := before.code, parameters }

def openRoutine (kind name parameters result : Tree) : Declare OpenRoutine := do
  checkNewRoutine kind name
  let (typed, array) ← routineParameters parameters
  enterRoutine kind name result typed array

/-- Notes the code and the scope of a routine and returns to the scope around it. -/
def closeRoutine (routine : OpenRoutine) (kind name result body : Tree) : Declare Tree := do
  let key ← (name.key : Check String)
  let info := routineInfo kind result body (.scope routine.locals) routine.parameters
  modify fun a =>
    { scopes := { a.scopes.update routine.home key info with current := routine.home }
      code := routine.code }
  return info

/-- Checks the body of a block in a new scope and keeps its code. -/
def finishBlock (body : Tree) : Declare Tree := do
  modify fun a => { a with scopes := a.scopes.enter }
  let code := Code.bodyTree (← checkCompound body)
  modify ({ · with code := some code })
  return code

mutual

def analyzeBlock : Tree → Declare Tree
  | .block declarations body => do
    if declarations.isTruthy then declareAll declarations
    finishBlock body
  | _ => throw (.fault .noSuchPart)
termination_by structural t => t

def declareAll : Tree → Declare Unit
  | .list items | .tuple items => declareList none items
  | .text _ | .dict _ => return
  | _ => throw (.fault .wrongKind)
termination_by structural t => t

/-- Declares names one after the other. A name that shares the type of the one before shares its
default values too. -/
def declareList (before : Option Tree) : List Tree → Declare Unit
  | [] => return
  | item :: rest => do
    let type ← declareItem before item
    declareList type rest
termination_by structural ts => ts

def declareItem (before : Option Tree) : Tree → Declare (Option Tree)
  | .constDecl name value => do
    declareConstant name value
    return none
  | .typeDecl name type => do
    declareType name type
    return none
  | .varDecl name type initial sharesType => do
    let type := if sharesType then before.getD type else type
    return some (← declareVariable name type initial)
  | .routine kind name parameters block result => do
    let routine ← openRoutine kind name parameters result
    let body ← analyzeBlock block
    let _ ← closeRoutine routine kind name result body
    return none
  | _ => return none
termination_by structural t => t

end

/-- Analyses a node of any kind as a block. A section of declarations has no statements, which is
noticed in the scope that is meant for them. -/
def analyzeAsBlock : Tree → Declare Tree
  | .declarations items => do
    if items.isTruthy then declareAll items
    modify fun a => { a with scopes := a.scopes.enter }
    throw (.fault .noSuchPart)
  | t => analyzeBlock t

/-- Declares a routine, the names in it and its statements. -/
def declareRoutine (kind name parameters block result : Tree) : Declare Tree := do
  let routine ← openRoutine kind name parameters result
  let body ← analyzeBlock block
  closeRoutine routine kind name result body

/-- Analyses a program: its block. Of the other nodes, most hold nothing where a program holds its
block, and what the rest hold there is no block. -/
def analyzeProgram : Tree → Declare Unit
  | .program _ block => do
    let _ ← analyzeBlock block
  | .declarations items => throw (.fault (if items.isTruthy then .noSuchPart else .outOfRange))
  | .block .. | .arrayType .. | .scope _ => throw (.fault .noSuchPart)
  | t => throw (.fault (if t.isPlain then .noSuchPart else .outOfRange))

end Declaring

end MiniPascal
