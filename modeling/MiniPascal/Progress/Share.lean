import MiniPascal.Progress.Basic
import MiniPascal.Text.Case

/-!
# Shares of Time

What share of the time of each workload is spent in the program itself. A negative share stands for
a workload that failed. Shares are doubles, and what is given for one is read as a double.
-/

namespace MiniPascal.Progress

/-- The share below which a workload is marked. -/
def shareThreshold : Tree.Number := .whole 45

/-- The least share of a workload that did not fail. -/
def zeroShare : Tree.Number := .whole 0

/-- The shares of the workloads, and where else their time goes. -/
structure Shares where
  /-- The share of each workload, in percent. -/
  shares : List (String × Tree.Number)
  /-- For each workload the places outside the program that take time. -/
  elsewhere : Tree

namespace Shares

/-- No workload has a share. -/
def empty : Shares := { shares := [], elsewhere := .dict [] }

/-- The double that a text denotes: blanks may surround it and a sign may come first. -/
def readReal? (s : String) : Option Float := do
  let (negative, chars) := Text.signed (Text.trimBlanks s).toList
  let word := chars.map fun c => ((Text.decimalValue? c).map Nat.digitChar).getD c
  let x ←
    match Text.toLower (String.ofList word) with
    | "inf" | "infinity" => some (1.0 / 0.0)
    | "nan" => some (0.0 / 0.0)
    | _ => LiteralToken.real? true word
  return if negative then -x else x

/-- The share that is given by data. A whole number that is not too large is the same as a double,
and stays as it is. -/
def shareOf (t : Tree) : Except Fault Tree.Number :=
  match t.number?, t with
  | some (.whole n), _ =>
    if n.natAbs ≤ Nat.pow 2 53 then .ok (.whole n)
    else Tree.Number.real <$> Tree.Number.toReal (.whole n)
  | some (.real x), _ => .ok (.real x)
  | none, .text s =>
    match readReal? s with
    | some x => .ok (.real x)
    | none => .error .badValue
  | none, _ => .error .wrongKind

/-- The shares that a tool tells. -/
def ofData (data : Tree) : Except Fault Shares := do
  let given ← entryOr data "repo_time_pct" (.dict []) >>= entriesOf
  let shares ← given.mapM fun entry => return (entry.1, ← shareOf entry.2)
  let elsewhere ← entryOr data "hot_ext" (.dict [])
  return { shares, elsewhere }

end Shares

/-- Whether a workload did not fail. -/
def isMeasured (share : Tree.Number) : Bool := isAtMost zeroShare share

/-- Whether the share of a workload is too small. -/
def isBelow (share : Tree.Number) : Bool := isMeasured share && isLess share shareThreshold

/-- The places outside the program that take the time of a workload. -/
def elsewhereText (s : Shares) (name : String) : Except Fault String := do
  let places ← (← entryOr s.elsewhere name (.list [])).elements
  if places.isEmpty then return ""
  let shown ← places.mapM fun place => show Except Fault String from do
    let (percent, label) ← place.pair
    return (← label.plain) ++ " " ++ percentText (← numberOf percent)
  let joined := " ".intercalate shown
  return s!" (hot: {joined})"

/-- What is said about a workload that failed or has a share that is too small. -/
def shareNote (s : Shares) (name : String) (share : Tree.Number) : Except Fault String :=
  if !isMeasured share then .ok "  <error>"
  else if isBelow share then elsewhereText s name
  else .ok ""

/-- The line for a workload, marked if its share is too small. -/
def shareLine (s : Shares) (name : String) (share : Tree.Number) : Except Fault String := do
  let mark := if isBelow share then "*" else " "
  let shown := if isMeasured share then share else zeroShare
  return "  " ++ mark ++ " " ++ padRight 32 name ++ " " ++ padLeft 5 (fixedText 1 shown) ++ "%" ++
    (← shareNote s name share)

/-- The lines for all workloads, the least shares first. -/
def shareLines (s : Shares) : Except Fault (List String) := do
  if s.shares.isEmpty then return []
  let sorted := s.shares.mergeSort fun a b => isAtMost a.2 b.2
  let lines ← sorted.mapM fun e => shareLine s e.1 e.2
  return ["", "repo_time (target 50%; * = below 45%):"] ++ lines

/-- How many shares were measured and how many of them are too small. -/
def shareCounts (shares : List (String × Tree.Number)) : Nat × Nat :=
  (shares.countP (isMeasured ·.2), shares.countP (isBelow ·.2))

end MiniPascal.Progress
