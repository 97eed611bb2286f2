import MiniPascal.Code.Generate
import MiniPascal.Proofs.Code.Values
import Mathlib.Algebra.Order.Ring.Int
import Mathlib.Data.List.Range
import Mathlib.Tactic.Common

/-!
# Counted Loops

What intermediate code does when it is run, as a relation between stores, and what a loop over a
range becomes in it.

* `generate_forLoop_sweeps`: the code of a loop that counts upward sweeps over its range.
-/

namespace MiniPascal.Execution

/-! ### Running code -/

variable (r : Routines)

/-- The variable that is assigned to, and the path to the part that is. -/
def place? (s : Store) : Code → Option (String × List Selector)
  | .name (.text x) => some (x, [])
  | .element array indices => do
    some (array, ← (← values? r s indices).mapM Value.selector?)
  | .field record (.text f) => do
    let (x, path) ← place? s record
    some (x, path ++ [.field f])
  | _ => none

/-- Running code in the first store ends in the second one. -/
inductive Runs : Code → Store → Store → Prop
  | nothing {s : Store} : Runs .nothing s s
  | assign {target value : Code} {x : String} {path : List Selector} {v : Value} {s t : Store}
      (hplace : place? r s target = some (x, path)) (hvalue : value? r s value = some v)
      (hassign : s.assign? x path v = some t) : Runs (.assign target value) s t
  | call {p : String} {arguments : List Code} {vs : List Value} {s t : Store}
      (hvalues : values? r s arguments = some vs) (hcall : r.procedure? p vs s = some t) :
      Runs (.procedureCall (.text p) arguments) s t
  | nil {s : Store} : Runs (.block []) s s
  | cons {c : Code} {cs : List Code} {s t u : Store} (hfirst : Runs c s t)
      (hrest : Runs (.block cs) t u) : Runs (.block (c :: cs)) s u
  | ifTrue {condition yes no : Code} {s t : Store}
      (htest : value? r s condition = some (.bool true)) (h : Runs yes s t) :
      Runs (.ifElse condition yes no) s t
  | ifFalse {condition yes no : Code} {s t : Store}
      (htest : value? r s condition = some (.bool false)) (h : Runs no s t) :
      Runs (.ifElse condition yes no) s t
  | whileTrue {condition body : Code} {s t u : Store}
      (htest : value? r s condition = some (.bool true)) (hbody : Runs body s t)
      (hrest : Runs (.whileLoop condition body) t u) : Runs (.whileLoop condition body) s u
  | whileFalse {condition body : Code} {s : Store}
      (htest : value? r s condition = some (.bool false)) : Runs (.whileLoop condition body) s s

variable {r}

/-- An assignment to a whole variable. -/
theorem runs_set {x : String} {value : Code} {v : Value} {s : Store}
    (h : value? r s value = some v) : Runs r (.assign (.name (.text x)) value) s (s.set x v) :=
  .assign rfl h rfl

theorem Runs.unique {c : Code} {s t t' : Store} (h : Runs r c s t) (h' : Runs r c s t') :
    t = t' := by
  induction h generalizing t' with
  | nothing => cases h'; rfl
  | assign hplace hvalue hassign =>
    cases h' with
    | assign hplace' hvalue' hassign' =>
      obtain ⟨rfl, rfl⟩ := Prod.mk.inj (Option.some.inj (hplace.symm.trans hplace'))
      obtain rfl := Option.some.inj (hvalue.symm.trans hvalue')
      exact Option.some.inj (hassign.symm.trans hassign')
  | call hvalues hcall =>
    cases h' with
    | call hvalues' hcall' =>
      obtain rfl := Option.some.inj (hvalues.symm.trans hvalues')
      exact Option.some.inj (hcall.symm.trans hcall')
  | nil => cases h'; rfl
  | cons _ _ ihfirst ihrest =>
    cases h' with
    | cons hfirst hrest =>
      obtain rfl := ihfirst hfirst
      exact ihrest hrest
  | ifTrue htest _ ih =>
    cases h' with
    | ifTrue _ h => exact ih h
    | ifFalse htest' => exact absurd (htest.symm.trans htest') nofun
  | ifFalse htest _ ih =>
    cases h' with
    | ifTrue htest' => exact absurd (htest.symm.trans htest') nofun
    | ifFalse _ h => exact ih h
  | whileTrue htest _ _ ihbody ihrest =>
    cases h' with
    | whileTrue _ hbody hrest =>
      obtain rfl := ihbody hbody
      exact ihrest hrest
    | whileFalse htest' => exact absurd (htest.symm.trans htest') nofun
  | whileFalse htest =>
    cases h' with
    | whileTrue htest' => exact absurd (htest.symm.trans htest') nofun
    | whileFalse => rfl

/-! ### Variables that do not matter -/

mutual

/-- Whether an expression mentions a variable, by its name or by a function that looks at it. -/
def mentions (r : Routines) (x : String) : Code → Bool
  | .name (.text n) => n == x
  | .element array indices => array == x || someMentions r x indices
  | .field record _ => mentions r x record
  | .compare _ left right | .binary _ left right => mentions r x left || mentions r x right
  | .functionCall (.text f) arguments => r.looksAt f x || someMentions r x arguments
  | _ => false

def someMentions (r : Routines) (x : String) : List Code → Bool
  | [] => false
  | c :: cs => mentions r x c || someMentions r x cs

end

mutual

/-- The value of an expression does not depend on variables that it does not mention. -/
theorem value?_set {x : String} {s : Store} {v : Value} (c : Code) (h : mentions r x c = false) :
    value? r (s.set x v) c = value? r s c := by
  cases c with
  | name n =>
    cases n with
    | text n => exact s.set_other (by simpa [mentions] using h) v
    | _ => rfl
  | element array indices =>
    obtain ⟨harray, hindices⟩ := Bool.or_eq_false_iff.1 h
    rw [value?, value?, values?_set indices hindices, s.set_other (by simpa using harray)]
  | field record field =>
    have hrecord := value?_set (s := s) (v := v) record h
    cases field with
    | text f => rw [value?, value?, hrecord]
    | _ => rfl
  | compare operator left right | binary operator left right =>
    obtain ⟨hleft, hright⟩ := Bool.or_eq_false_iff.1 h
    have hleft := value?_set (s := s) (v := v) left hleft
    have hright := value?_set (s := s) (v := v) right hright
    cases operator with
    | text => rw [value?, value?, hleft, hright]
    | _ => rfl
  | functionCall f arguments =>
    cases f with
    | text f =>
      obtain ⟨hlooks, harguments⟩ := Bool.or_eq_false_iff.1 h
      rw [value?, value?, values?_set arguments harguments]
      exact bind_congr fun vs => r.function?_set f x hlooks vs s v
    | _ => rfl
  | integer value => cases value <;> rfl
  | _ => rfl
termination_by structural c

theorem values?_set {x : String} {s : Store} {v : Value} (cs : List Code)
    (h : someMentions r x cs = false) : values? r (s.set x v) cs = values? r s cs := by
  cases cs with
  | nil => rfl
  | cons c cs =>
    rw [someMentions, Bool.or_eq_false_iff] at h
    rw [values?, values?, value?_set c h.1, values?_set cs h.2]
termination_by structural cs

end

/-! ### Loops over a range -/

/-- Running a body for each of several values that a variable has when it starts, with the variable
counted up after each pass. -/
inductive Sweeps (r : Routines) (x : String) (body : Code) : List Int → Store → Store → Prop
  | nil {s : Store} : Sweeps r x body [] s s
  | cons {v : Int} {vs : List Int} {s t u : Store} (hcounter : s x = some (.int v))
      (hbody : Runs r body s t) (hrest : Sweeps r x body vs (t.set x (.int (v + 1))) u) :
      Sweeps r x body (v :: vs) s u

/-- Some numbers in a row. -/
def counted (first : Int) (length : Nat) : List Int :=
  (List.range length).map fun i : Nat => first + i

theorem counted_succ (first : Int) (length : Nat) :
    counted first (length + 1) = first :: counted (first + 1) length := by
  simp only [counted, List.range_succ_eq_map, List.map_cons, List.map_map]
  congr 1
  · exact add_zero first
  · refine List.map_congr_left fun i _ => ?_
    simp only [Function.comp_apply, Nat.cast_succ]
    omega

theorem counted_succ_last (first : Int) (length : Nat) :
    counted first (length + 1) = counted first length ++ [first + length] := by
  simp only [counted, List.range_succ, List.map_append, List.map_cons, List.map_nil]

section Loop

variable {x : String} {body last : Code}

variable {v b : Int} {s : Store}

theorem Sweeps.snoc {vs : List Int} {t u : Store} (h : Sweeps r x body vs s t)
    (hcounter : t x = some (.int v)) (hbody : Runs r body t u) :
    Sweeps r x body (vs ++ [v]) s (u.set x (.int (v + 1))) := by
  induction h with
  | nil => exact .cons hcounter hbody .nil
  | cons hfirst hpass _ ih => exact .cons hfirst hpass (ih hcounter hbody)

def countUp (x : String) : Code :=
  .assign (.name (.text x)) (.binary (.text "+") (.name (.text x)) (.integer (.int 1)))

/-- The loop that runs a body until a variable has passed the end. -/
def countingLoop (x : String) (last body : Code) : Code :=
  .whileLoop (.compare (.text "<=") (.name (.text x)) last) (.block [body, countUp x])

theorem runs_countUp (h : s x = some (.int v)) : Runs r (countUp x) s (s.set x (.int (v + 1))) := by
  refine runs_set ?_
  simp only [value?, h]
  rfl

theorem value?_test (hcounter : s x = some (.int v)) (hlast : value? r s last = some (.int b)) :
    value? r s (.compare (.text "<=") (.name (.text x)) last) = some (.bool (v ≤ b)) := by
  simp only [value?, hcounter, hlast, Option.bind_eq_bind, Option.bind_some]
  change some (Value.bool (compare v b != .gt)) = _
  congr 2
  by_cases h : v ≤ b
  · simp [h, compare_gt_iff_gt]
  · simp [h, compare_gt_iff_gt, lt_of_not_ge h]

/-- One pass of the loop: the body runs, the counter goes up, and the rest of the loop follows. -/
theorem Runs.pass {t u : Store} (hcounter : s x = some (.int v))
    (hlast : value? r s last = some (.int b)) (hle : v ≤ b) (hbody : Runs r body s t)
    (hkept : t x = s x) (hrest : Runs r (countingLoop x last body) (t.set x (.int (v + 1))) u) :
    Runs r (countingLoop x last body) s u := by
  refine .whileTrue ?_ (.cons hbody (.cons (runs_countUp (hkept.trans hcounter)) .nil)) hrest
  rw [value?_test hcounter hlast, decide_eq_true hle]

/-- What is left of the loop after some passes. -/
theorem exists_runs_countingLoop {a : Int} (hmention : mentions r x last = false)
    (hbody : ∀ (k : Nat) (t : Store), a + k ≤ b → Sweeps r x body (counted a k) s t →
      ∃ u, Runs r body t u ∧ u x = t x ∧ value? r u last = value? r t last) (n k : Nat) (t : Store)
    (hn : n = (b + 1 - (a + k)).toNat) (hpasses : Sweeps r x body (counted a k) s t)
    (hcounter : t x = some (.int (a + k))) (hlast : value? r t last = some (.int b)) :
    ∃ u, Runs r (countingLoop x last body) t u ∧ Sweeps r x body (counted (a + k) n) t u ∧
      u x = some (.int (max (a + k) (b + 1))) := by
  -- The passes still to come are counted down; those behind are kept for the premise on the body.
  induction n generalizing k t with
  | zero =>
    have hpassed : ¬ a + k ≤ b := by omega
    refine ⟨t, .whileFalse ?_, .nil, ?_⟩
    · rw [value?_test hcounter hlast, decide_eq_false hpassed]
    · rw [hcounter, max_eq_left (by omega)]
  | succ n ih =>
    have hle : a + k ≤ b := by omega
    obtain ⟨u, hrun, hkept, hsame⟩ := hbody k t hle hpasses
    have hnext : a + ↑(k + 1) = a + k + 1 := by omega
    obtain ⟨w, hrest, hsweep, hend⟩ := ih (k + 1) (u.set x (.int (a + k + 1))) (by omega)
      (counted_succ_last a k ▸ hpasses.snoc hcounter hrun) (by rw [Store.set_same, hnext])
      ((value?_set last hmention).trans (hsame.trans hlast))
    rw [hnext] at hsweep hend
    refine ⟨w, .pass hcounter hlast hle hrun hkept hrest, ?_, ?_⟩
    · rw [counted_succ]
      exact .cons hcounter hrun hsweep
    · rw [hend, max_eq_right (by omega), max_eq_right (by omega)]

end Loop

/-- Where the start has the value `a` and the end the value `b`, the end does not mention the
counter, and every pass of the body ends and leaves the counter and the value of the end as they
are, the loop ends, in one store only, which is that of running the body for `a`, `a + 1`, …, `b` in
this order. The counter is then the greater of `a` and `b + 1`. -/
theorem generate_forLoop_sweeps {x : String} {start direction stop body : Tree}
    {first last inner : Code} {s : Store} {a b : Int}
    (hdirection : direction.lowered = .ok "to") (hfirst : start.generate = .ok first)
    (hlast : stop.generate = .ok last) (hinner : body.generate = .ok inner)
    (hstart : value? r s first = some (.int a)) (hstop : value? r s last = some (.int b))
    (hmention : mentions r x last = false)
    (hbody : ∀ (k : Nat) (t : Store), a + k ≤ b →
      Sweeps r x inner (counted a k) (s.set x (.int a)) t →
      ∃ u, Runs r inner t u ∧ u x = t x ∧ value? r u last = value? r t last) :
    ∃ code t, (Tree.forLoop (.text x) start direction stop body).generate = .ok code ∧
      Runs r code s t ∧ (∀ t', Runs r code s t' → t' = t) ∧
      Sweeps r x inner (counted a (b + 1 - a).toNat) (s.set x (.int a)) t ∧
      t x = some (.int (max a (b + 1))) := by
  obtain ⟨t, hloop, hsweep, hend⟩ := exists_runs_countingLoop hmention hbody
    (b + 1 - a).toNat 0 (s.set x (.int a)) (by simp) .nil (by simp)
    ((value?_set last hmention).trans hstop)
  have hcode : (Tree.forLoop (.text x) start direction stop body).generate =
      .ok (.block [.assign (.name (.text x)) first, countingLoop x last inner]) := by
    simp only [Tree.generate, hfirst, hdirection, hlast, hinner]
    rfl
  have hrun : Runs r (.block [.assign (.name (.text x)) first, countingLoop x last inner]) s t :=
    .cons (runs_set hstart) (.cons hloop .nil)
  refine ⟨_, t, hcode, hrun, fun t' h => h.unique hrun, ?_, ?_⟩
  · simpa using hsweep
  · simpa using hend

theorem generate_forLoop_sweeps_three :
    ∃ code t, (Tree.forLoop (.text "i") (.factor (.int 1) .null .null (.bool false)) (.text "TO")
        (.factor .null (.text "n") .null (.bool false))
        (.assign (.text "y") (.factor (.int 7) .null .null (.bool false)))).generate = .ok code ∧
      Runs noRoutines code (Store.set (fun _ => none) "n" (.int 3)) t ∧
      t "i" = some (.int 4) := by
  have hfirst : (Tree.factor (.int 1) .null .null (.bool false)).generate =
      .ok (.integer (.int 1)) := rfl
  have hlast : (Tree.factor .null (.text "n") .null (.bool false)).generate =
      .ok (.name (.text "n")) := rfl
  have hinner : (Tree.assign (.text "y") (.factor (.int 7) .null .null (.bool false))).generate =
      .ok (.assign (.name (.text "y")) (.integer (.int 7))) := rfl
  have hdirection : (Tree.text "TO").lowered = .ok "to" := by decide
  obtain ⟨code, t, hcode, hrun, -, -, hend⟩ := generate_forLoop_sweeps (r := noRoutines) (x := "i")
    (s := Store.set (fun _ => none) "n" (.int 3)) (a := 1) (b := 3) hdirection hfirst hlast hinner
    rfl (by simp [value?]) (by decide) fun k t _ _ => ⟨t.set "y" (.int 7), runs_set rfl,
      t.set_other (by decide) _, t.set_other (by decide) _⟩
  exact ⟨code, t, hcode, hrun, hend⟩

end MiniPascal.Execution
