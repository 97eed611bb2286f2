import MiniPascal.Progress.Coverage
import MiniPascal.Progress.History
import MiniPascal.Progress.Share
import MiniPascal.Progress.Verdict

/-!
# Making a Progress Report

A round of measurement: the coverage table, the shares of time, the verdicts on the workloads, and
whether work may stop, with the record that the checkpoint keeps of it.
-/

namespace MiniPascal.Progress

/-- All that a report is made from. -/
structure Measurement where
  /-- The run of the tool that measures coverage. -/
  coverage : ToolResult
  /-- The coverage data, if the tool left it. -/
  coverageData : Option String
  /-- The source text of the workloads. -/
  source : Option String
  /-- The run of the tool that finds shares of time. -/
  shares : ToolRun
  /-- The run of the tool that checks the workloads. -/
  checks : ToolRun
  /-- The listing of changed files. -/
  status : ToolRun
  /-- The checkpoint, if there is one. -/
  checkpoint : Option String
  /-- The time of the round, in seconds. -/
  now : Float
  /-- The seconds that measuring took. -/
  elapsed : Float

/-- The name under which an error is told. -/
def ToolError.name : ToolError → String
  | .timedOut => "TimeoutExpired"
  | .notJson => "JSONDecodeError"
  | .fault .noSuchPart => "AttributeError"
  | .fault .missingKey => "KeyError"
  | .fault .outOfRange => "IndexError"
  | .fault .badValue => "ValueError"
  | .fault .tooLarge => "OverflowError"
  | .fault _ => "TypeError"

/-- What a tool prints as errors, and what is made of its data. An error of the tool is told among
the errors, and nothing is made of its data then. -/
def toolOutcome {α : Type} (name : String) (run : ToolRun) (nothing : α)
    (make : Tree → Except Fault α) : String × α :=
  let failed (e : ToolError) : String :=
    let kind := e.name
    s!"[{name} runner: {kind}]\n"
  match run with
  | .absent => ("", nothing)
  | .timedOut => (failed .timedOut, nothing)
  | .finished result =>
    match result.data >>= fun data => (make data).mapError .fault with
    | .ok value => (result.errors, value)
    | .error e => (result.errors ++ failed e, nothing)

/-- The files that a listing of changes names. -/
def changedFiles : ToolRun → List String
  | .finished result => modifiedFiles result.printed
  | _ => []

/-- The line that sums up a round. -/
def roundLine (round workloads : Nat) (percent : String) (shares : Option (Nat × Nat))
    (verdicts : Option (Nat × Nat)) (elapsed : Float) : String :=
  let sharePart := match shares with
    | some (measured, below) => s!"{below}/{measured} below repo_time 45%, "
    | none => ""
  let verdictPart := match verdicts with
    | some (unsound, all) => s!"{unsound}/{all} not self-checking, "
    | none => ""
  let seconds := Real.fixed 1 elapsed
  "[" ++ (s!"round {round}: {workloads} benches, {percent}% covered, " ++ sharePart ++
    verdictPart ++ s!"measured in {seconds}s]")

/-- What a round finds out. -/
structure Round where
  /-- The coverage of the whole program. -/
  total : TotalCoverage
  /-- The percentage of the program that was run. -/
  percent : Tree.Number
  /-- The workloads that failed while coverage was measured. -/
  errors : List (String × Tree)
  /-- The shares of time. -/
  shares : Shares
  /-- The verdicts on the workloads. -/
  verdicts : List (String × Findings × Verdict)
  /-- The earlier rounds. -/
  history : History
  /-- The lines of the report, but for those about stopping. -/
  lines : List String
  /-- What the tools printed as errors. -/
  toolErrors : String

namespace Round

/-- What is found out from a measurement and its coverage data. -/
def ofData (m : Measurement) (data : Tree) : Except Fault Round := do
  let total ← TotalCoverage.ofData data
  let table ← coverageTable data
  let errors ← workloadErrors data
  let errorPart ← errorLines errors
  let measured := toolOutcome "repotime" m.shares Shares.empty Shares.ofData
  let sharePart ← shareLines measured.2
  let changed := changedFiles m.status
  let checked := toolOutcome "semcheck" m.checks [] findingsOf
  let verdicts := checked.2.map fun (name, f) => (name, f, finalVerdict (!changed.isEmpty) f)
  let history := History.ofCheckpoint m.checkpoint
  let percent ← measuredOf total.percent
  let summary := roundLine (history.rounds + 1) (workloadCount m.source) (fixedText 1 percent)
    (if measured.2.shares.isEmpty then none else some (shareCounts measured.2.shares))
    (if verdicts.isEmpty then none else some (unsoundCount verdicts, verdicts.length)) m.elapsed
  return { total, percent, errors, shares := measured.2, verdicts, history
           lines := table ++ errorPart ++ sharePart ++ modifiedLines changed ++
             verdictLines verdicts ++ ["", summary]
           toolErrors := measured.1 ++ checked.1 }

/-- The record that the checkpoint keeps of a round. There is none if the checkpoint cannot be
read. -/
def record (r : Round) (m : Measurement) : Except Fault Tree := do
  let since ← r.history.secondsSince m.now
  let (measured, below) := shareCounts r.shares.shares
  return .dict [("round", .int (r.history.rounds + 1)), ("ts", .real m.now),
    ("wall_since_prev_s", .real since), ("coverage_pct", r.total.percent),
    ("covered_lines", r.total.covered), ("num_statements", r.total.statements),
    ("n_bench_fns", .int (workloadCount m.source)), ("n_bench_errors", .int r.errors.length),
    ("cov_measure_s", .real (Real.rounded 3 m.elapsed)),
    ("repo_time_pct", .dict (r.shares.shares.map fun (name, x) => (name, .real (toReal x)))),
    ("n_below_repo_time", if measured = 0 then .null else .int below),
    ("semcheck", .dict (r.verdicts.map fun (name, _, verdict) => (name, .text verdict.name))),
    ("n_not_self_checking", .int (unsoundCount r.verdicts))]

end Round

end MiniPascal.Progress
