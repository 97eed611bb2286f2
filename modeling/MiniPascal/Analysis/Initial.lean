import MiniPascal.Analysis.Basic

/-!
# Initial Values

What a declaration says about the value of a name: checking the initial values of arrays and
records against their types, and making values where none are given.

An array has a list of dimensions, each a pair of bounds, and its initial values are nested lists,
one level for each dimension. The initial value of a record is a list of named fields or a
dictionary of them.
-/

namespace MiniPascal

/-- Where an array type stands. -/
inductive ArrayPlace where
  /-- In a declaration of constants, where values must be given. -/
  | constant
  /-- In a declaration of variables, fields or parameters. -/
  | storage
  /-- Anywhere else, where nothing is said about it. -/
  | elsewhere
  deriving DecidableEq, Repr

namespace Initial

open Check

/-- The number of elements along a dimension. -/
def extent (dimension : Tree) : Except Fault Int := do
  let (low, high) ← dimension.pair
  match low.toInt?, high.toInt? with
  | some l, some h => return h - l + 1
  | _, _ => throw .wrongKind

def arraySize : List Tree → Except Fault Int
  | [] => .ok 1
  | dimension :: rest => do
    let first ← extent dimension
    return first * (← arraySize rest)

def isRecordValue : Tree → Bool
  | .recordInit _ | .dict _ => true
  | _ => false

def elementRecord (element : Tree) : Check Tree := do
  let record ← lookup element
  if record.isTruthy then return record else refuse (.unknownRecordType (← element.plain))

def fieldInfos (record : Tree) : Check (List Tree) := do
  let infos ← record.get "fields_info"
  if infos.isTruthy then infos.elements
  else refuse (.noFields (← (← record.get "name").plain))

def recordValue (record : Tree) (fields : List (String × Tree)) : Check Tree := do
  return .dict [("type", .text "record"), ("record_type", ← record.entry "name"),
    ("fields", .dict fields)]

/-- What is known about an array. Its initial values, if any, are checked by `check`, which counts
them, and for an array of records put into their checked form by `transform`. -/
def describeArray (place : ArrayPlace) (element dimensions initial : Tree)
    (transform : Tree → List Tree → Check Tree) (check : List Tree → Check Nat) : Check Tree := do
  let dims ← dimensions.elements
  let size ← arraySize dims
  let described (values : Tree) : Tree :=
    .dict [("type", .text "array"), ("element_type", element), ("size", .int size),
      ("dimensions", dimensions), ("initial_values", values)]
  let counted : Check Unit := do
    let total ← check dims
    if (total : Int) ≠ size then refuse (.arraySize size total)
  let transformed : Check Tree := do
    let record ← lookup element
    if (← record.isRecordEntry) && !initial.isNull then transform record dims else return initial
  match place with
  | .constant =>
    if initial.isNull then refuse .constArrayWithoutValues
    counted
    return described (← transformed)
  | .storage =>
    let values ← transformed
    if !initial.isNull then counted
    return described values
  | .elsewhere => return .null

/-- A check of the value of an array field, given the type of the elements and the dimensions. -/
abbrev ArrayCheck := Tree → Tree → Check Unit

/-- Checks the value of one field of a record that is written as a list of fields. -/
def checkField (record info name value : Tree) (array : ArrayCheck) : Check Unit := do
  let wanted ← info.entry "field_name"
  let type ← info.entry "field_type"
  let mismatch : Check Unit := do refuse (.fieldName (← wanted.plain) (← name.plain))
  if !wanted.same name then mismatch
  match ← BasicType.ofFieldType? type with
  | some basic => if !basic.admits value then mismatch
  | none =>
    if type.isTextOf "array" then
      let described ← info.get "arr_info"
      if !described.isTruthy then refuse (.arrayFieldWithoutInfo (← name.plain))
      array (← described.entry "element_type") (← described.entry "dimensions")
    else refuse (.unsupportedFieldType (← type.plain) (← (← record.get "name").plain))

/-- Checks the fields of a record that is written as a dictionary, in the order of the record
type, up to the first one that is itself a record. -/
def checkEntries (record : Tree) (entries : List (String × Tree × ArrayCheck)) :
    List Tree → List (String × Tree) → Check (List (String × Tree))
  | [], checked => return checked
  | info :: rest, checked => do
    let name ← (← info.entry "field_name").key
    let type ← info.entry "field_type"
    match entries.lookup name with
    | none => fail .missingKey
    | some (value, array) =>
      let next := Tree.setEntry name value checked
      match ← BasicType.ofFieldType? type with
      | some basic =>
        if !basic.admits value then refuse (.fieldValue name (← type.plain) value.kindName)
        checkEntries record entries rest next
      | none =>
        if type.isTextOf "array" then
          let described ← info.get "arr_info"
          if !described.isTruthy then refuse (.arrayFieldLacksInfo name)
          array (← described.entry "element_type") (← described.entry "dimensions")
          checkEntries record entries rest next
        else if (← lookup type).isTruthy then return next
        else refuse (.unsupportedFieldType (← type.plain) (← (← record.get "name").plain))

/-- Checks a record that is written as a dictionary: it has just the fields of its type. -/
def checkDictionary (record : Tree) (entries : List (String × Tree × ArrayCheck)) :
    Check Tree := do
  let infos ← fieldInfos record
  let names ← infos.mapM fun info => show Check String from do (← info.entry "field_name").key
  if entries.any (fun e => !names.contains e.1) ||
      names.any (fun n => (entries.lookup n).isNone) then
    refuse (.fieldNames (← (← record.get "name").plain))
  recordValue record (← checkEntries record entries infos [])

/-- Puts characters or keys that stand where records are expected into their checked form, which
only an empty text below the last level has. -/
def transformText (dimensions : List Tree) (s : String) : Check Tree :=
  match dimensions with
  | [] => refuse (.recordElement "str")
  | _ :: _ => if s.isEmpty then return .list [] else refuse (.recordElement "str")

/-- Checks a single value that is no record against the type of the elements. -/
def checkElement (element : Tree) (level : Nat) (value : Tree) : Check Nat := do
  match ← BasicType.ofTree? element with
  | some basic =>
    if basic.admits value then return 1
    else refuse (.elementOfKind level basic.kindName value.kindName)
  | none => refuse (.badInitializer (← element.plain))

/-- Checks a list of values, not all of which are records, against the type of the elements. -/
def checkElements (element : Tree) (level : Nat) (values : List Tree) : Check Nat := do
  match ← BasicType.ofTree? element with
  | some basic =>
    if values.all basic.admits then return values.length
    else refuse (.elementsOfKind level basic.kindName)
  | none => refuse (.badInitializer (← element.plain))

mutual

/-- Checks the initial values of an array from some level on and counts them. -/
def checkValues (element : Tree) (level : Nat) (dimensions : List Tree) : Tree → Check Nat
  | .list values =>
    match dimensions with
    | [] => do
      if values.all isRecordValue then
        let record ← elementRecord element
        let _ ← checkRecords record values
        return values.length
      else checkElements element level values
    | dimension :: rest => do
      let wanted ← extent dimension
      if wanted ≠ values.length then refuse (.elementCount level wanted values.length)
      checkNested element (level + 1) rest values
  | .recordInit fields =>
    match dimensions with
    | [] => do
      let record ← elementRecord element
      let _ ← checkRecord record fields
      return 1
    | _ :: _ => refuse (.listExpected level "RecordInitializerNode")
  | .dict entries =>
    match dimensions with
    | [] => do
      let record ← elementRecord element
      let _ ← checkDictionary record (entryChecks entries)
      return 1
    | _ :: _ => refuse (.listExpected level "dict")
  | value =>
    match dimensions with
    | [] => checkElement element level value
    | _ :: _ => refuse (.listExpected level value.kindName)
termination_by structural x => x

def checkNested (element : Tree) (level : Nat) (dimensions : List Tree) : List Tree → Check Nat
  | [] => return 0
  | value :: rest => do
    let first ← checkValues element level dimensions value
    return first + (← checkNested element level dimensions rest)
termination_by structural x => x

def checkRecord (record : Tree) : Tree → Check Tree
  | .list pairs | .tuple pairs => do
    let infos ← fieldInfos record
    if infos.length ≠ pairs.length then refuse (.fieldCount (← (← record.get "name").plain))
    recordValue record (← checkPairs record infos [] pairs)
  | fields => do
    let infos ← fieldInfos record
    if infos.length ≠ (← fields.size) then refuse (.fieldCount (← (← record.get "name").plain))
    fail .badValue
termination_by structural x => x

def checkPairs (record : Tree) (infos : List Tree) (checked : List (String × Tree)) :
    List Tree → Check (List (String × Tree))
  | [] => return checked
  | .list [name, value] :: rest | .tuple [name, value] :: rest =>
    match infos with
    | [] => return checked
    | info :: others => do
      checkField record info name value fun element dimensions => do
        let _ ← describeArray .storage element dimensions value
          (fun inner dims => transformValues inner dims value)
          (fun dims => checkValues element 0 dims value)
      checkPairs record others (Tree.setEntry (← name.key) value checked) rest
  | pair :: _ => do
    let _ ← pair.elements
    fail .badValue
termination_by structural x => x

def entryChecks : List (String × Tree) → List (String × Tree × ArrayCheck)
  | [] => []
  | (name, value) :: rest =>
    let array : ArrayCheck := fun element dimensions => do
      let _ ← describeArray .storage element dimensions value
        (fun inner dims => transformValues inner dims value)
        (fun dims => checkValues element 0 dims value)
    (name, value, array) :: entryChecks rest
termination_by structural x => x

def checkRecords (record : Tree) : List Tree → Check (List Tree)
  | [] => return []
  | .recordInit fields :: rest => do
    let first ← checkRecord record fields
    return first :: (← checkRecords record rest)
  | .dict entries :: rest => do
    let first ← checkDictionary record (entryChecks entries)
    return first :: (← checkRecords record rest)
  | _ :: _ => do
    let _ ← fieldInfos record
    refuse .recordInitializerExpected
termination_by structural x => x

def transformValues (record : Tree) (dimensions : List Tree) : Tree → Check Tree
  | .list values =>
    match dimensions with
    | [] => do return .list (← checkRecords record values)
    | _ :: rest => do return .list (← transformNested record rest values)
  | .tuple values =>
    match dimensions with
    | [] => refuse (.recordElement "tuple")
    | _ :: rest => do return .list (← transformNested record rest values)
  | .recordInit fields =>
    match dimensions with
    | [] => checkRecord record fields
    | _ :: _ => fail .wrongKind
  | .dict entries =>
    match dimensions with
    | [] => checkDictionary record (entryChecks entries)
    | _ :: rest => do return .list (← entries.mapM fun e => transformText rest e.1)
  | .text s => transformText dimensions s
  | value =>
    match dimensions with
    | [] => refuse (.recordElement value.kindName)
    | _ :: _ => fail .wrongKind
termination_by structural x => x

def transformNested (record : Tree) (dimensions : List Tree) : List Tree → Check (List Tree)
  | [] => return []
  | value :: rest => do
    let first ← transformValues record dimensions value
    return first :: (← transformNested record dimensions rest)
termination_by structural x => x

end

/-- What is known about an array of a given type. -/
def arrayInfo (place : ArrayPlace) (element dimensions initial : Tree) : Check Tree :=
  describeArray place element dimensions initial
    (fun record dims => transformValues record dims initial)
    (fun dims => checkValues element 0 dims initial)

/-- Nested lists of the given dimensions, all of whose elements are the same. -/
def filled (element : Check Tree) : List Tree → Check Tree
  | [] => element
  | dimension :: rest => do
    let count ← extent dimension
    if count ≤ 0 then return .list []
    return .list (List.replicate count.toNat (← filled element rest))

/-- The fields of a record before they are set, by name, given such values for other types. -/
def defaultFields (value : Tree → Check Tree) (record : Tree) :
    List Tree → List (String × Tree) → Check (List (String × Tree))
  | [], fields => return fields
  | info :: rest, fields => do
    let name ← info.entry "field_name"
    let type ← info.entry "field_type"
    let initial ←
      if type.isTextOf "array" then
        let described ← info.get "arr_info"
        if !described.isTruthy then
          refuse (.arrayFieldNotDescribed (← name.plain) (← (← record.entry "name").plain))
        let dimensions ← described.entry "dimensions"
        let element ← described.entry "element_type"
        filled (value element) (← dimensions.elements)
      else value type
    defaultFields value record rest (Tree.setEntry (← name.key) initial fields)

/-- A record before its fields are set, given such values for other types. -/
def defaultRecordWith (value : Tree → Check Tree) (record : Tree) : Check Tree := do
  let type ← record.get "type"
  if !type.isTextOf "record" then
    refuse (.notRecordType (← (← record.get "name").plain) (← type.plain))
  return .dict (← defaultFields value record (← fieldInfos record) [])

/-- The value of a type before it is set. Records lead to the types of their fields, at most as far
as the fuel allows. -/
def defaultWithin : Nat → Tree → Tree → Check Tree
  | 0, _, _ => fail .circular
  | fuel + 1, type, extra => do
    match ← BasicType.ofTree? type with
    | some basic => return basic.initial
    | none =>
      if type.isTextOf "array" then
        if !extra.isTruthy then refuse .arrayInfoNeeded
        let dimensions ← extra.entry "dimensions"
        let element ← extra.entry "element_type"
        filled (defaultWithin fuel element .null) (← dimensions.elements)
      else
        let record ← lookup type
        if ← record.isRecordEntry then
          defaultRecordWith (fun inner => defaultWithin fuel inner .null) record
        else refuse (.unknownType (← type.plain))

/-- The value of a type before it is set; `extra` gives the dimensions and the type of the elements
of an array. A chain of types that is longer than all names together runs in a circle. -/
def defaultValue (type extra : Tree) : Check Tree := do
  defaultWithin ((← read).symbolCount + 2) type extra

/-- A record before its fields are set. -/
def defaultRecord (record : Tree) : Check Tree :=
  defaultRecordWith (fun type => defaultValue type .null) record

def defaultArray (dimensions element : Tree) : Check Tree := do
  filled (defaultValue element .null) (← dimensions.elements)

def constantInfo (value : Tree) : Check Tree := do
  let type ← value.item 0
  let given ← value.item 1
  match ← BasicType.ofTree? type with
  | some basic =>
    if !basic.admits given then refuse (.notOfType basic.title)
    match basic, given with
    | .char, .text s =>
      match s.toList with
      | [c] => return .dict [("type", type), ("value", .int c.toNat)]
      | _ => refuse .singleCharacter
    | _, _ => return .dict [("type", type), ("value", given)]
  | none =>
    match type with
    | .arrayType dimensions element initial => arrayInfo .constant element dimensions initial
    | _ =>
      let record ← lookup type
      if record.isTruthy then
        match given with
        | .recordInit fields => checkRecord record fields
        | _ => refuse (.recordConstant (← type.plain))
      else return .null

/-- The type of a variable, an array type without values getting default ones. -/
def filledType (type : Tree) : Check Tree := do
  match type with
  | .arrayType dimensions element .null =>
    return .arrayType dimensions element (← defaultArray dimensions element)
  | _ => return type

/-- What a type and an initial value, if there is one, say about a variable. -/
def variableInfo (type initial : Tree) : Check Tree := do
  match ← BasicType.ofTree? type with
  | some basic =>
    if initial.isNull then return .dict [("type", type), ("value", basic.initialVariable)]
    else if basic.admits initial then return .dict [("type", type), ("value", initial)]
    else refuse (.notOfType basic.title)
  | none =>
    match ← filledType type with
    | .arrayType dimensions element values => arrayInfo .storage element dimensions values
    | _ =>
      let record ← lookup type
      if ← record.isRecordEntry then
        let fields ←
          match initial with
          | .null => defaultRecord record
          | .recordInit fields => do
            let _ ← checkRecord record fields
            pure (.list (← fields.elements))
          | _ => refuse (.recordVariable (← type.plain) initial.kindName)
        return .dict [("type", .text "record"), ("record_type", type), ("fields", fields)]
      else refuse (.unsupportedVariableType (← type.plain))

end Initial

end MiniPascal
