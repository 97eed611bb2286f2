import MiniPascal.Workload.Generate

/-!
# Workloads of Corner Cases

Single steps of every stage on unusual input. A step that fails gives a label in place of a value.
-/

namespace MiniPascal.Workload

/-- The value of a step, or a label if it fails. -/
def labelled {ε : Type} (label : String) (step : Except ε Tree) : Tree :=
  match step with
  | .ok t => t
  | .error _ => .text label

def variableEntry (info : List (String × Tree)) : Tree :=
  .dict [("type", .text "var"), ("info", .dict info)]

/-- What is known about an array of one dimension. -/
def arrayEntry (element : String) (low high : Int) : List (String × Tree) :=
  [("type", .text "array"), ("element_type", .text element),
    ("dimensions", .list [dimension low high])]

def recordEntry (name : String) (fields : List (String × String)) : Tree :=
  .dict [("type", .text "record"), ("name", .text name),
    ("fields_info", .list (fields.map fun (field, type) =>
      .dict [("field_name", .text field), ("field_type", .text type)]))]

def constantEntry (value : Int) : Tree :=
  .dict [("type", .text "const"),
    ("info", .dict [("type", .text "integer"), ("value", .int value)])]

def listedVariables : List (String × Tree) :=
  [("rec", variableEntry [("type", .text "record"), ("record_type", .text "Pt")]),
    ("s", variableEntry [("type", .text "string")]),
    ("arrPt", variableEntry (arrayEntry "Pt" 1 3)),
    ("arrS", variableEntry (arrayEntry "string" 1 3))]

def listedNames : List (String × Tree) :=
  [("KX", constantEntry 7),
    ("Pt", recordEntry "Pt" [("x", "integer"), ("b", "boolean"), ("s", "string")]),
    ("F", .dict [("kind", .text "function"),
      ("parameters", .list [.dict [("name", .text "a"), ("type", .text "integer")]]),
      ("local_symbol_table", .dict [
        ("a", .dict [("kind", .text "parameter"), ("type", .text "integer")]),
        ("cx", constantEntry 1),
        ("rloc", recordEntry "rloc" []),
        ("vloc", variableEntry [("type", .text "integer")])]),
      ("block_code", .dict [("type", .text "block"), ("statements", .list [])])]),
    ("P", .dict [("kind", .text "procedure")])] ++ listedVariables

def cornerNames : List (String × Tree) :=
  listedVariables ++
    [("i", variableEntry [("type", .text "integer")]),
      ("arrI", variableEntry (arrayEntry "integer" 1 3)),
      ("parr", .dict [("kind", .text "parameter"), ("info", .dict (arrayEntry "integer" 1 3))]),
      ("prec", .dict [("kind", .text "parameter"), ("type", .text "Pt")])]

/-- The scope of the names that expressions are listed with. -/
def cornerContext : Listing.Context :=
  { scopes := Scopes.empty.setSymbols 0 cornerNames, outermost := 0 }

def integerCode (n : Int) : Tree := (Code.integer (.int n)).toTree

def nameCode (name : String) : Tree := (Code.name (.text name)).toTree

def elementCode (array : String) (indices : List Tree) : Tree :=
  .dict [("type", .text "ArrayAccess"), ("array", .text array), ("indices", .list indices)]

def fieldCode (record : Tree) (field : String) : Tree :=
  .dict [("type", .text "RecordFieldAccess"), ("record", record), ("field", .text field)]

def assignCode (target value : Tree) : Tree :=
  .dict [("type", .text "Assignment"), ("target", target), ("value", value)]

def listedExpressions : List (Tree × Bool) :=
  let one := integerCode 1
  let sum := (Code.binary (.text "+") (.integer (.int 1)) (.integer (.int 1))).toTree
  let field := fieldCode (elementCode "arrPt" [one]) "x"
  [(elementCode "arrS" [one], true), (elementCode "arrS" [one], false),
    (elementCode "arrPt" [one], true), (elementCode "arrPt" [one], false),
    (elementCode "parr" [sum], true), (elementCode "arrI" [], true),
    (field, true), (field, false), (fieldCode (nameCode "prec") "x", true),
    (.dict [("type", .text "Integer"), ("value", .bool true)], false),
    (nameCode "unknown", false)]

def listedStatementCodes : List Tree :=
  let set := assignCode (nameCode "i") (integerCode 1)
  let noStatements := Tree.dict [("type", .text "Block"), ("statements", .list [])]
  [assignCode (nameCode "rec") (nameCode "rec"),
    assignCode (nameCode "arrPt") (nameCode "arrPt"),
    assignCode (elementCode "arrPt" [integerCode 1]) (nameCode "rec"),
    .dict [("type", .text "If"), ("condition", integerCode 1), ("then", noStatements),
      ("else", set)],
    .dict [("type", .text "For"), ("loop_variable", .text "i"), ("start", integerCode 1),
      ("direction", .text "to"), ("end", integerCode 3), ("body", set)],
    .dict [("type", .text "x")]]

def nestedFields : Tree :=
  .dict [("a", .int 1), ("b", .dict [("c", .int 2)]), ("d", .text "str")]

/-- Steps of the first stages. -/
def syntaxCorners : List Tree :=
  let one := soleExpression (valueFactor (.int 1))
  let down := Tree.forLoop (.text "i") one (.text "downto") one (.compound (.list []))
  [labelled "codeerr" (Tree.statement.generate.map Code.toTree),
    labelled "parseerr" (do
      .text <$> (← parsedAs .compound "begin x := 1; end").plain.mapError .listing),
    labelled "numerr" (parsedAs .factor "²"),
    (Scopes.empty.lookup "missing").getD .null,
    labelled "forerr" (down.generate.map Code.toTree),
    labelled "evalerr"
      ((Tree.term (.list [valueFactor (.int 2), .text "*", valueFactor (.int 3)]) .null).evaluate
        [])]

def listingCorners : List Tree :=
  let written (step : Except Fault String) : Tree := labelled "listerr" (step.map .text)
  [written (Listing.program cornerContext listedNames []),
    .text (Listing.wrap "x"),
    written (Listing.arrayType (.text "T")
      (.dict [("element_type", .text "integer"), ("size", .int 3)]) (.text "type")),
    labelled "listerr" ((Listing.fields "p" nestedFields).map fun lines =>
      .list (lines.map .text))] ++
  listedExpressions.map (fun (t, isAddress) =>
    labelled "listerr" (Listing.expression cornerContext t isAddress .outermost)) ++
  listedStatementCodes.map fun t => written (Listing.statement cornerContext t .outermost)

def soundPrograms : List String :=
  [programOf "var i: integer;" "for i := 3 downto 1 do begin i := i; end;",
    programOf "function F(a: integer): integer; begin F := a; end; var i: integer;"
      "i := F(1) + 1;"]

/-- The analysis of a program as a step without a value. -/
def analysisStep (text : String) : Except StageError Tree :=
  (Pipeline.analyze text).map fun _ => .null

def unsoundPrograms : List String := refusedPrograms.drop 2

/-- Steps of the analysis with some names in scope. -/
def analysisChecks : List (String × Check Tree) :=
  let x := nameFactor "x"
  let number := soleExpression (valueFactor (.int 1))
  let access := Tree.arrayAccess (.text "a") (.list [number])
  let named := fun (n : Int) => Tree.dict [("x", .int n)]
  [("checkerr", return (← Initial.checkRecords (recordEntry "R2" [("inner", "R")])
      [.dict [("inner", named 1)]]).headD .null),
    ("checkerr", Initial.transformValues (recordEntry "R" [("x", "integer")])
      [dimension 1 2] (.list [named 1, named 2])),
    ("typeerr", Typing.elementType access),
    ("typeerr", Typing.factorType true .null (.text "pr")),
    ("typeerr", Typing.chainType (.list [x, .text "+", x])),
    ("se-type", return (← Typing.typeOf false (.simple (.list [x]) .null)).toTree),
    ("typeerr", return (← Typing.typeOf false (.expression x (.text "=") x)).toTree),
    ("typeerr", return (← Typing.typeOf false .null).toTree),
    ("typeerr", return Tree.null.soleName),
    ("typeerr", Typing.fieldType (.text "x") (.text "missing")),
    ("typeerr", Typing.fieldType (.text "x") .null),
    ("checkerr", return (← Checking.checkExpression .null access).toTree),
    ("checkerr", return (← Checking.checkFieldAccess .null (.text "x") (.text "pr")).toTree),
    ("typeerr", Typing.fieldType (.text "x") (.text "pr"))]

/-- The state of the analysis in which these steps are taken. -/
def cornerAnalysis : Except StageError Analysis := do
  let state ← declared
    "type R = record x: integer end; var x: integer; a: array[1..3] of integer;"
  let parameter := Tree.dict [("kind", .text "parameter"), ("type", .text "R")]
  match (Declaring.declare (.text "pr") parameter).run.run state with
  | (.ok (), after) => .ok after
  | (.error e, _) => .error (.analysis e)

def analysisCorners : Except StageError (List Tree) := do
  let state ← cornerAnalysis
  return soundPrograms.map (labelled "semok-err" <| analysisStep ·) ++
    unsoundPrograms.map (labelled "semerr" <| analysisStep ·) ++
    analysisChecks.map fun (label, check) => labelled label (check.run state)

/-- All corner cases, `n` times over. -/
def corners (n : Nat) : Except StageError (List Tree) := do
  let values := syntaxCorners ++ listingCorners ++ (← analysisCorners)
  return (List.replicate n values).flatten

end MiniPascal.Workload
