import MiniPascal.Progress.Basic

/-!
# Verdicts on Workloads

Whether a workload checks itself: it gives a value that depends on its work, is the same in every
run, changes with the size of the workload, and is found in the program and not around it.
-/

namespace MiniPascal.Progress

/-- The verdict on a workload. -/
inductive Verdict where
  | returnsNothing
  | failed
  | unstable
  | returnsInput
  | lowShare
  | tooFast
  | unsized
  | sizeIgnored
  | modified
  | sound
  deriving DecidableEq, Repr

namespace Verdict

/-- The word for a verdict. -/
def name : Verdict → String
  | returnsNothing => "returns-none"
  | failed => "error"
  | unstable => "unstable"
  | returnsInput => "returns-input"
  | lowShare => "low-repo-time"
  | tooFast => "too-fast"
  | unsized => "ok-unparam"
  | sizeIgnored => "param-invariant"
  | modified => "repo-modified"
  | sound => "ok"

/-- Whether a verdict calls for no change. -/
def isSound : Verdict → Bool
  | sound | unsized => true
  | _ => false

end Verdict

/-- What was found out about a workload. -/
structure Findings where
  /-- The type of the value that it gives. -/
  returned : String
  /-- Fingerprints of the value in several runs. -/
  runs : List Tree
  /-- Fingerprints of what the workload was given. -/
  inputs : List Tree
  /-- Fingerprints of the value by size. -/
  bySize : List Tree
  /-- Shares of the time spent in the program. -/
  shares : List Float
  /-- Times in milliseconds. -/
  times : List Float

namespace Findings

/-- The values of the entries of a dictionary that are numbers. -/
def reals (data : Tree) (key : String) : Except Fault (List Float) := do
  (← entriesOf (← entryOr data key (.dict []))).mapM fun (_, value) => do
    return toReal (← numberOf value)

/-- The findings that a tool tells. -/
def ofData (data : Tree) : Except Fault Findings := do
  return {
    returned := ← (← entryOr data "ret_type" (.text "?")).plain
    runs := ← (← entryOr data "fp_stable" (.list [])).elements
    inputs := ← (← entryOr data "param_fps" (.list [])).elements
    bySize := (← entriesOf (← entryOr data "fp_by_param" (.dict []))).map (·.2)
    shares := ← reals data "repo_frac"
    times := ← reals data "repo_tt_ms" }

/-- The least share of time spent in the program, or zero. -/
def leastShare (f : Findings) : Float :=
  match f.shares with
  | [] => 0.0
  | first :: rest => rest.foldl (fun least share => if share < least then share else least) first

/-- The time in the middle, or the mean of the two there, or zero. -/
def medianTime (f : Findings) : Float :=
  let sorted := f.times.mergeSort fun a b => a ≤ b
  let half := sorted.length / 2
  if sorted.length % 2 = 1 then sorted.getD half 0.0
  else if sorted.isEmpty then 0.0
  else (sorted.getD (half - 1) 0.0 + sorted.getD half 0.0) / 2.0

/-- Whether all of some fingerprints are the same. -/
def allSame : List Tree → Bool
  | [] => true
  | first :: rest => rest.all (first.same ·)

/-- The verdict on a workload by what was found out: the first fault counts. -/
def verdict (f : Findings) : Verdict :=
  if f.returned = "NoneType" then .returnsNothing
  else if f.returned.startsWith "<" || f.returned = "?" then .failed
  else
    match f.runs with
    | [] => .unstable
    | first :: _ =>
      if !allSame f.runs then .unstable
      else if f.inputs.any (first.same ·) then .returnsInput
      else if !f.shares.isEmpty && f.leastShare < 0.5 then .lowShare
      else if !f.times.isEmpty && f.medianTime < 1.0 then .tooFast
      else if f.bySize.length < 2 then .unsized
      else if allSame f.bySize then .sizeIgnored
      else .sound

end Findings

/-- The verdict on a workload when files of the program may have been changed, which spoils it. -/
def finalVerdict (isModified : Bool) (f : Findings) : Verdict :=
  let verdict := f.verdict
  if isModified && verdict.isSound then .modified else verdict

/-- The findings on each workload; what is no dictionary is passed over. -/
def findingsOf (data : Tree) : Except Fault (List (String × Findings)) := do
  let entries ← entriesOf (← entryOr data "semcheck" (.dict []))
  let described := entries.filter fun e => e.2 matches .dict _
  described.mapM fun (name, info) => do return (name, ← Findings.ofData info)

/-- The number of workloads with a verdict that calls for a change. -/
def unsoundCount (verdicts : List (String × Findings × Verdict)) : Nat :=
  verdicts.countP fun v => !v.2.2.isSound

/-- What to do about the verdicts. -/
def advice : List String :=
  ["returns-none: run() has no return — collect and return the call results",
    "unstable: seed RNG in setup; avoid time/uuid/id in the return",
    "returns-input: return repo output, not the parameter value",
    "low-repo-time: <50% of run() time is in repo code — move glue to setup",
    "param-invariant: return something derived from run()'s work, not setup",
    "repo-modified: revert edits to repo files (git checkout -- <path>)"]

/-- The line for a workload, marked if its verdict calls for a change. -/
def verdictLine (name : String) (f : Findings) (v : Verdict) : String :=
  let mark := if v.isSound then " " else "*"
  let share := Real.fixed 0 (f.leastShare * 100.0)
  let time := Real.fixed 1 f.medianTime
  "  " ++ mark ++ " " ++ padRight 32 name ++ " " ++ padRight 16 v.name ++
    s!" ({f.returned}, repo {share}%) {time}ms"

/-- The lines that tell the verdicts, those first that call for a change. -/
def verdictLines (verdicts : List (String × Findings × Verdict)) : List String :=
  if verdicts.isEmpty then []
  else
    let unsound := verdicts.filter fun v => !v.2.2.isSound
    let sound := verdicts.filter fun v => v.2.2.isSound
    ["", "self-check (* = fix needed):"] ++ advice.map ("  " ++ ·) ++
      (unsound ++ sound).map fun (name, findings, verdict) => verdictLine name findings verdict

/-- The files that the listing of changes names. -/
def modifiedFiles (status : String) : List String :=
  ((printedLines status).filter isFilled).map fun line => String.ofList (line.toList.drop 3)

/-- The lines that tell which files were changed. -/
def modifiedLines (files : List String) : List String :=
  if files.isEmpty then []
  else
    let count := files.length
    ["",
      s!"** repo modified ({count} file(s)) — revert these; only microbench.py is yours to edit:"] ++
      (files.take 10).map ("   " ++ ·)

end MiniPascal.Progress
