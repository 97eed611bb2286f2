import MiniPascal.Progress.Basic
import MiniPascal.Tree.Operator

/-!
# The Coverage Table

One row for each file, those covered least first and among equals those with more statements, and a
row for the whole.
-/

namespace MiniPascal.Progress

/-- The coverage of a file. -/
structure FileCoverage where
  /-- The name of the file. -/
  name : String
  /-- The number of its statements. -/
  statements : Tree
  /-- The number of statements that were not run. -/
  missed : Tree
  /-- The percentage that was run, as it was given. -/
  percent : Tree
  /-- The lines that were not run. -/
  lines : List Tree

namespace FileCoverage

/-- The longest part of a name that is shown. -/
def maxName : Nat := 60

/-- The most lines that are shown. -/
def maxLines : Nat := 12

/-- The name of a file below the root of the files. -/
def shownName (path : String) : String :=
  let root := "/repo/".toList
  let chars := path.toList
  let below := if root.isPrefixOf chars then chars.drop root.length else chars
  String.ofList (below.take maxName)

/-- The coverage of a file that the data tells. -/
def ofData (path : String) (data : Tree) : Except Fault FileCoverage := do
  let summary ← entryOr data "summary" (.dict [])
  let number (key : String) (fallback : Tree) : Except Fault Tree := do
    return (← summary.get? key).getD fallback
  return {
    name := shownName path
    statements := ← number "num_statements" (.int 0)
    missed := ← number "missing_lines" (.int 0)
    percent := ← number "percent_covered" (.real 0.0)
    lines := ← linesOf (← entryOr data "missing_lines" (.list [])) }
where
  /-- The items of a list of lines. -/
  linesOf (t : Tree) : Except Fault (List Tree) :=
    if t.isDict then .error .wrongKind else t.elements

/-- Whether a file is shown before another or they stand as they are. -/
def comesFirst (a b : FileCoverage) : Bool :=
  match a.percent.number?, b.percent.number?, a.statements.number?, b.statements.number? with
  | some p, some q, some m, some n => isLess p q || (!isLess q p && isAtMost n m)
  | _, _, _, _ => true

/-- Whether the percentages of files can be put in order: all are numbers, or all are texts. -/
def areOrdered (files : List FileCoverage) : Bool :=
  files.length ≤ 1 || files.all (·.percent.number?.isSome) || files.all (·.percent.isText)

/-- The first lines that were not run. -/
def shownLines (f : FileCoverage) : Except Fault String := do
  let shown ← (f.lines.take maxLines).mapM Tree.plain
  return ",".intercalate shown ++ if f.lines.length > maxLines then "…" else ""

end FileCoverage

/-- The coverage of the whole program. -/
structure TotalCoverage where
  /-- The number of statements. -/
  statements : Tree
  /-- The number of statements that were run. -/
  covered : Tree
  /-- The percentage that was run, as it was given. -/
  percent : Tree

/-- The coverage of the whole program that the data tells. -/
def TotalCoverage.ofData (data : Tree) : Except Fault TotalCoverage := do
  let totals ← entryOr data "totals" (.dict [])
  let number (key : String) (fallback : Tree) : Except Fault Tree := do
    return (← totals.get? key).getD fallback
  return {
    statements := ← number "num_statements" (.int 0)
    covered := ← number "covered_lines" (.int 0)
    percent := ← number "percent_covered" (.real 0.0) }

/-- A row of the table by its columns. -/
def tableRow (width : Nat) (name statements missed percent : String) : String :=
  padRight width name ++ "  " ++ padLeft 5 statements ++ "  " ++ padLeft 4 missed ++ "  " ++
    padLeft 5 percent

/-- The files that the data tells of, in the order in which they are shown. -/
def coveredFiles (data : Tree) : Except Fault (List FileCoverage) := do
  let files ← entriesOf (← entryOr data "files" (.dict []))
  let rows ← files.mapM fun (path, info) => FileCoverage.ofData path info
  -- The order needs numbers.
  rows.forM fun row => do let _ ← numberOf row.statements
  if !FileCoverage.areOrdered rows then throw .wrongKind
  return rows.mergeSort FileCoverage.comesFirst

/-- The width of the column of names: that of the longest name, or of its heading in a table without
rows. -/
def nameWidth (files : List FileCoverage) : Nat :=
  if files.isEmpty then 4 else files.foldl (fun width f => max width f.name.length) 0

/-- The row of a file, with the lines of it that were not run. -/
def fileRow (width : Nat) (f : FileCoverage) : Except Fault String := do
  let row := tableRow width f.name (← cellText f.statements) (← cellText f.missed)
    (percentText (← measuredOf f.percent))
  return row ++ ("  " ++ (← f.shownLines))

/-- The whole table. -/
def coverageTable (data : Tree) : Except Fault (List String) := do
  let files ← coveredFiles data
  let total ← TotalCoverage.ofData data
  let width := nameWidth files
  let rule := String.ofList (List.replicate (width + 42) '-')
  let rows ← files.mapM (fileRow width)
  let missed ← Tree.arith .subtract total.statements total.covered
  let last := tableRow width "TOTAL" (← cellText total.statements) (← cellText missed)
    (percentText (← measuredOf total.percent))
  return [tableRow width "Name" "Stmts" "Miss" "Cover" ++ "  Missing", rule] ++ rows ++ [rule, last]

/-- The workloads that failed, with what went wrong. -/
def workloadErrors (data : Tree) : Except Fault (List (String × Tree)) := do
  let about ← entryOr data "meta" (.dict [])
  entriesOf (← entryOr about "_pti_bench_errors" (.dict []))

/-- The line for a workload that failed. -/
def errorLine (name : String) (error : Tree) : Except Fault String := do
  return "  " ++ name ++ ": " ++ (← error.plain)

/-- The lines for the first workloads that failed. -/
def errorLines (errors : List (String × Tree)) : Except Fault (List String) := do
  if errors.isEmpty then return []
  let shown ← (errors.take 8).mapM fun e => errorLine e.1 e.2
  return ["", toString errors.length ++ " bench error(s):"] ++ shown

end MiniPascal.Progress
