import MiniPascal.Progress.Basic

/-!
# Rounds

Each measurement is a round, and the checkpoint keeps a record of each. Work on the workloads stops
when no share of time is too small, or when the number of those that are has not gone below its
least value for three rounds.
-/

namespace MiniPascal.Progress

/-- The number of shares that were too small in a round, as its record has it. Truth values are
numbers, too. -/
inductive Count where
  | number (n : Int)
  | truth (b : Bool)
  deriving DecidableEq, Repr

namespace Count

/-- The count that an entry of a record tells. -/
def ofTree? : Tree → Option Count
  | .int n => some (.number n)
  | .bool b => some (.truth b)
  | _ => none

/-- The value by which counts are compared. -/
def value : Count → Int
  | .number n => n
  | .truth b => if b then 1 else 0

/-- A count as it is printed. -/
def shown : Count → String
  | .number n => toString n
  | .truth b => if b then "True" else "False"

end Count

/-- The entries of a record, if its line can be read. -/
def recordOf? (line : String) : Option (List (String × Tree)) := (Tree.ofJson? line).bind entries?

/-- What is known of earlier rounds. -/
structure History where
  /-- The number of earlier rounds, which is that of the records. -/
  rounds : Nat
  /-- The counts of the records that were read. -/
  counts : List Count
  /-- The time that the last record tells, if all records could be read. -/
  lastTime : Option Tree

namespace History

/-- The counts of records up to the first that cannot be read, and whether there is none such. -/
def countsOf : List String → List Count × Bool
  | [] => ([], true)
  | line :: rest =>
    match recordOf? line with
    | none => ([], false)
    | some record =>
      let told := (record.lookup "n_below_repo_time").bind Count.ofTree?
      let (counts, isWhole) := countsOf rest
      (told.toList ++ counts, isWhole)

/-- The history that a checkpoint tells. Its last record is read first, for the time in it; if that
fails no count is read. -/
def ofCheckpoint (checkpoint : Option String) : History :=
  let lines := (checkpoint.map filledLines).getD []
  match lines.getLast? with
  | none => { rounds := 0, counts := [], lastTime := some .null }
  | some last =>
    match recordOf? last with
    | none => { rounds := lines.length, counts := [], lastTime := none }
    | some record =>
      let (counts, isWhole) := countsOf lines
      { rounds := lines.length, counts
        lastTime := if isWhole then some ((record.lookup "ts").getD .null) else none }

/-- The seconds since the last round, or zero if its time is not known. -/
def secondsSince (h : History) (now : Float) : Except Fault Float := do
  match h.lastTime with
  | none => throw .badValue
  | some time =>
    if time.isTruthy then return Real.rounded 2 (now - toReal (← numberOf time)) else return 0.0

end History

/-! ### Improvement -/

/-- The state of the search for an improvement. -/
structure Streak where
  /-- The least count so far, if there is any. -/
  best : Option Count
  /-- The rounds since the count was found. -/
  since : Nat

namespace Streak

/-- Before the first round. -/
def start : Streak := { best := none, since := 0 }

/-- After one more round: a count below the best one takes its place. -/
def next (s : Streak) (count : Count) : Streak :=
  match s.best with
  | none => { best := some count, since := 0 }
  | some best =>
    if count.value < best.value then { best := some count, since := 0 }
    else { s with since := s.since + 1 }

end Streak

/-- Why work may stop. -/
inductive StopReason where
  /-- No share is too small. -/
  | noneBelow
  /-- The number of shares that are too small has not gone below `best` for some rounds. -/
  | noImprovement (rounds : Nat) (best : Count)

/-- A reason in words. -/
def StopReason.text : StopReason → String
  | .noneBelow => "0 below"
  | .noImprovement rounds best => s!"no improvement in {rounds} rounds; best {best.shown} below"

/-- Whether a line starts with the definition of a workload. -/
def startsWorkload (chars : List Char) : Bool :=
  let start := "def bench_".toList
  let rest := chars.drop start.length
  let name := rest.takeWhile LiteralToken.isWordChar
  let following := (rest.drop name.length).dropWhile Text.isBlank
  start.isPrefixOf chars && !name.isEmpty && following.head? == some '('

/-- The number of workloads that a text defines, each at the start of a line; the text follows a
line end or not. -/
def countWorkloads : Bool → List Char → Nat
  | _, [] => 0
  | atStart, c :: rest =>
    (if atStart && startsWorkload (c :: rest) then 1 else 0) + countWorkloads (c = '\n') rest

/-- The number of workloads that a source text defines; without the text there are none. -/
def workloadCount (source : Option String) : Nat :=
  match source with
  | none => 0
  | some text => countWorkloads true text.toList

end MiniPascal.Progress
