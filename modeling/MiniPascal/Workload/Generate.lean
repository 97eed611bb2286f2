import MiniPascal.Tree.Evaluate
import MiniPascal.Workload.Basic

/-!
# Workloads of Analysis, Code, Listings and Initial Values
-/

namespace MiniPascal.Workload

def analyzedSample (n : Nat) : Except StageError Analysis := Pipeline.analyze (checkedSample n)

def sampleCode (n : Nat) : Except StageError (List Tree) := do
  (Pipeline.statements (← analyzedSample n)).mapError .listing

/-- The number of characters of the listing of a sample program and of a call that is left open. -/
def listingLength (n : Nat) : Except StageError Nat := do
  let listing ← Pipeline.list (← analyzedSample n) .data
  let call ← (Listing.copyCall "a" "b" .null).mapError .listing
  return listing.length + call.length

/-- The listings of the statements of a sample program, one after the other. -/
def listedStatements (n : Nat) : Except StageError String := do
  let state ← analyzedSample n
  let lines ← (do
    (← Pipeline.statements state).mapM fun t =>
      Listing.statement (Pipeline.listingContext state) t .outermost :
    Except Fault (List String)).mapError .listing
  return "\n".intercalate lines

def programOf (declarations statements : String) : String :=
  s!"program P; {declarations} begin {statements} end."

def refusedPrograms : List String :=
  [programOf "" "x := 1;",
    programOf "var x: integer;" "x := \"text\";",
    programOf "var x: integer; s: string;" "x := s;",
    programOf "var x: integer;" "x := x + y;",
    programOf "var x: integer = \"text\";" "",
    programOf "const x: integer = \"text\";" "",
    programOf "const c: char = \"long\";" "",
    programOf "const a: array[1..3] of integer = (1, 2);" "",
    programOf "var a: array[1..2] of integer = (1, \"b\");" "",
    programOf "var a: array[1..2] of integer;" "a[5] := 1;",
    programOf "var a: array[1..2] of integer;" "a[1][2] := 1;",
    programOf "var a: array[1..2] of integer; b: array[1..3] of integer;" "a := b;",
    programOf "type R = record x: integer end; var r: R;" "r.y := 1;",
    programOf "var x: integer;" "x.y := 1;",
    programOf "var s: string;" "for s := 1 to 2 do begin s := s; end;",
    programOf "var x: integer;" "if x then begin x := 1; end;",
    programOf "var x: integer;" "while x do begin x := 1; end;",
    programOf "" "Missing(1);"]

/-- How many programs are refused by their analysis, each of them `n` times. -/
def analysisFailures (n : Nat) : Nat := n * failures (refusedPrograms.map Pipeline.analyze)

def nameFactor (name : String) : Tree := .factor .null (.text name) .null (.bool false)

def valueFactor (value : Tree) : Tree := .factor value .null .null (.bool false)

/-- An expression without an operator. -/
def soleExpression (t : Tree) : Tree := .expression t .null .null

def codedTrees : List Tree :=
  let one := soleExpression (valueFactor (.int 1))
  let x := soleExpression (nameFactor "x")
  let less := Tree.expression (nameFactor "x") (.text "<") (valueFactor (.int 10))
  let set := Tree.assign (.text "x") one
  let body := Tree.compound (.list [set])
  let element := Tree.arrayAccess (.text "a") (.list [one])
  let field := Tree.fieldAccess (.text "r") (.text "f")
  [one, x, less, set, body, element, field,
    valueFactor (.text "c"),
    valueFactor (.text "text"),
    valueFactor (.bool true),
    .factor .null .null one (.bool false),
    .simple (.list [nameFactor "x", .text "+", valueFactor (.int 2)]) .null,
    .assign element x,
    .assign field x,
    .ifElse less body .null,
    .ifElse less body body,
    .whileLoop less body,
    .forLoop (.text "i") one (.text "to") x body,
    .procedureCall (.text "p") (.list [x]),
    .functionCall (.text "f") (.list [x, one])]

/-- How many trees have code, each of them `n` times. -/
def codeCount (n : Nat) : Nat :=
  n * codedTrees.countP fun t =>
    match t.generate with
    | .ok .nothing => false
    | .ok _ => true
    | .error _ => false

/-- A function without a result type and with nothing to do. -/
def emptyFunction : Tree :=
  .routine (.text "function") (.text "F")
    (.list [.parameter (.text "a") (.typeName (.text "integer") .null) .null])
    (.compound (.list [])) .null

/-- For each number up to `n`: whether it is positive, the number itself, both found by evaluating
trees, and the written form of a function. -/
def nodeValues (n : Nat) : Except Fault (List Tree) := do
  let rounds ← (List.range n).mapM fun (i : Nat) => show Except Fault (List Tree) from do
    let number := nameFactor "i"
    let context := [("i", Tree.int i)]
    let positive ← (Tree.expression number (.text ">") (valueFactor (.int 0))).evaluate context
    let itself ← (soleExpression number).evaluate context
    let shown ← emptyFunction.plain
    return [positive, itself, .text shown]
  return rounds.flatten

/-! ### Initial values -/

def declared (text : String) : Except StageError Analysis := do
  let tree ← parsedAs .declarations text
  match (Declaring.declareAll tree).run.run Analysis.start with
  | (.ok (), state) => .ok state
  | (.error e, _) => .error (.analysis e)

def recordWith (x : Int) (items : List Int) : Tree :=
  .recordInit (.list [.tuple [.text "x", .int x],
    .tuple [.text "arr", .list (items.map .int)]])

/-- A dictionary of the fields of such a record. -/
def dictionaryWith (x : Int) (items : List Int) : Tree :=
  .dict [("x", .int x), ("arr", .list (items.map .int))]

def dimension (low high : Int) : Tree := .tuple [.int low, .int high]

/-- Values and types that are found with a record type in scope. -/
def initialChecks : List (Check Tree) :=
  let number := valueFactor (.int 5)
  [Initial.defaultValue (.text "R") .null,
    Initial.defaultArray (.list [dimension 1 4, dimension 1 4]) (.text "integer"),
    Initial.defaultArray (.list [dimension 1 3]) (.text "R"),
    (return (← Typing.typeOf false (soleExpression number)).toTree),
    Typing.chainType (.list [number, .text "+", number]),
    Typing.factorType false (.int 5) .null,
    Initial.constantInfo (.tuple [.text "integer", .int 5]),
    Initial.variableInfo (.arrayType (.list [dimension 1 3]) (.text "integer") .null) .null,
    Initial.variableInfo (.text "R") .null,
    Initial.arrayInfo .storage (.text "R") (.list [dimension 1 2])
      (.list [recordWith 1 [1, 2], recordWith 2 [3, 4]]),
    Initial.arrayInfo .constant (.text "R") (.list [dimension 1 2])
      (.list [dictionaryWith 1 [1, 2], dictionaryWith 2 [3, 4]])]

/-- The values and types, `n` times over. -/
def initialValues (n : Nat) : Except StageError (List Tree) := do
  let state ← declared "type R = record x: integer; arr: array[1..2] of integer end;"
  let values ← (initialChecks.mapM (ReaderT.run · state)).mapError .analysis
  return (List.replicate n values).flatten

end MiniPascal.Workload
