import MiniPascal.Tree.Json

/-!
# Progress Reports

A progress report tells how far the workloads cover the program and how well they measure it. It is
made from the results of tools that ran before. Their data is JSON, and what is missing in it, or
absent, counts as empty.
-/

namespace MiniPascal.Progress

/-- The result of a tool that ran to its end. -/
structure ToolResult where
  /-- The exit code. -/
  exitCode : Int
  /-- What the tool printed. -/
  printed : String
  /-- What the tool printed as errors. -/
  errors : String

/-- What became of a tool. -/
inductive ToolRun where
  /-- There is no such tool. -/
  | absent
  /-- The tool took too long. -/
  | timedOut
  | finished (result : ToolResult)

/-- Why the data of a tool cannot be used. -/
inductive ToolError where
  | timedOut
  | notJson
  | fault (fault : Fault)

/-- An entry of data, or the given value where it is missing or counts as false. -/
def entryOr (t : Tree) (key : String) (fallback : Tree) : Except Fault Tree := do
  let value ← t.get key
  return if value.isTruthy then value else fallback

/-- The entries of a tree that is a dictionary. -/
def entries? : Tree → Option (List (String × Tree))
  | .dict entries => some entries
  | _ => none

/-- The entries of a dictionary, which is needed. -/
def entriesOf (t : Tree) : Except Fault (List (String × Tree)) :=
  match entries? t with
  | some entries => .ok entries
  | none => .error .noSuchPart

/-- The number that data is. -/
def numberOf (t : Tree) : Except Fault Tree.Number :=
  match t.number? with
  | some n => .ok n
  | none => .error .wrongKind

/-- The number that is to be shown with a fixed count of places. A text has no places. -/
def measuredOf (t : Tree) : Except Fault Tree.Number :=
  match t with
  | .text _ => .error .badValue
  | _ => numberOf t

/-- A value as a column shows it. A truth value is shown as a number, and only numbers and texts fit
into a column. -/
def cellText (t : Tree) : Except Fault String :=
  match t with
  | .text s => .ok s
  | .real x => .ok (Real.shortest x)
  | _ =>
    match t.toInt? with
    | some n => .ok (toString n)
    | none => .error .wrongKind

/-- Whether a number comes before another or is equal to it. -/
def isAtMost (a b : Tree.Number) : Bool :=
  match a.compare b with
  | some .lt | some .eq => true
  | _ => false

/-- Whether a number comes before another. -/
def isLess (a b : Tree.Number) : Bool := a.compare b == some .lt

/-- The double that is nearest to a number. -/
def toReal : Tree.Number → Float
  | .whole n => (Real.ofInt? n).getD (1.0 / 0.0)
  | .real x => x

/-- A number with a fixed count of places. -/
def fixedText (places : Nat) : Tree.Number → String
  | .whole n => Real.fixedRatio places n 1
  | .real x => Real.fixed places x

/-- A percentage without places. -/
def percentText (n : Tree.Number) : String := fixedText 0 n ++ "%"

/-- A text filled up with blanks on the left. -/
def padLeft (width : Nat) (s : String) : String :=
  String.ofList (List.replicate (width - s.length) ' ') ++ s

/-- A text filled up with blanks on the right. -/
def padRight (width : Nat) (s : String) : String :=
  s ++ String.ofList (List.replicate (width - s.length) ' ')

/-- Whether a line is more than blanks. -/
def isFilled (line : String) : Bool := !(Text.trimBlanks line).isEmpty

/-- The lines of a file that are not blank. -/
def filledLines (s : String) : List String :=
  ((Text.linesOf (· = '\n') s.toList).map String.ofList).filter isFilled

/-- The lines of what is printed. -/
def printedLines (s : String) : List String :=
  (Text.linesOf Text.isLineEnd (Text.unifyLineEnds s.toList)).map String.ofList

/-- The data that a tool printed on its last line. An empty line stands for no entries, and so does
no line at all. -/
def ToolResult.data (r : ToolResult) : Except ToolError Tree :=
  match (printedLines r.printed).getLast?.getD "" with
  | "" => .ok (.dict [])
  | line =>
    match Tree.ofJson? line with
    | some t => .ok t
    | none => .error .notJson

end MiniPascal.Progress
