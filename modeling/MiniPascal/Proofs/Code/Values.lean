import MiniPascal.Code
import MiniPascal.Text.Case

/-!
# The Values of Code

What expressions of the intermediate code compute. Truth values count as the numbers one and zero.
Calls are left open: any meaning of the routines will do, as long as functions do not change
variables.
-/

namespace MiniPascal.Execution

/-! ### Values and stores -/

/-- What leads from an array or a record to one of its parts. -/
inductive Selector where
  | index (n : Int)
  | field (name : String)
  deriving DecidableEq

/-- What variables hold. -/
inductive Value where
  | int (n : Int)
  | bool (b : Bool)
  | text (s : String)
  | char (code : Nat)
  /-- An array or a record. -/
  | whole (parts : List (Selector × Value))

namespace Value

/-- The part of a value at the end of a path. -/
def at? : List Selector → Value → Option Value
  | [], v => some v
  | s :: path, .whole parts => (parts.lookup s).bind (at? path)
  | _ :: _, _ => none

/-- The value with a new part at the end of a path, which must lead to a part. -/
def put? (new : Value) : List Selector → Value → Option Value
  | [], _ => some new
  | s :: path, .whole parts => do
    let changed ← put? new path (← parts.lookup s)
    some (.whole (parts.map fun p => if p.1 = s then (s, changed) else p))
  | _ :: _, _ => none

/-- The part of an array that a value selects as an index. -/
def selector? : Value → Option Selector
  | .int n => some (.index n)
  | _ => none

/-- The number that a value counts as. -/
def number? : Value → Option Int
  | .int n => some n
  | .bool b => some (if b then 1 else 0)
  | _ => none

/-- How two values compare, if they can be compared. -/
def order? : Value → Value → Option Ordering
  | .text a, .text b | .char a, .char b => some (compare a b)
  | a, b => return compare (← a.number?) (← b.number?)

end Value

/-- What a relational operator asks of two values, by how they compare. -/
def comparison? : String → Option (Ordering → Bool)
  | "=" => some (· == .eq)
  | "<>" => some (· != .eq)
  | "<" => some (· == .lt)
  | ">" => some (· == .gt)
  | "<=" => some (· != .gt)
  | ">=" => some (· != .lt)
  | _ => none

/-- The arithmetic operators that apply to all numbers. -/
def arithmetic? : String → Option (Int → Int → Int)
  | "+" => some (· + ·)
  | "-" => some (· - ·)
  | "*" => some (· * ·)
  | _ => none

/-- The arithmetic operators that apply to all numbers but zero. -/
def division? : String → Option (Int → Int → Int)
  | "div" => some Int.tdiv
  | "mod" => some Int.tmod
  | _ => none

/-- The result of an operator that does not compare. -/
def operation? : String → Value → Value → Option Value
  | "and", .bool a, .bool b => some (.bool (a && b))
  | "or", .bool a, .bool b => some (.bool (a || b))
  | "+", .text a, .text b => some (.text (a ++ b))
  | operator, left, right => do
    let a ← left.number?
    let b ← right.number?
    match arithmetic? operator with
    | some apply => some (.int (apply a b))
    | none =>
      let apply ← division? operator
      if b = 0 then none else some (.int (apply a b))

/-- The result of an operator. -/
def result? (operator : String) (left right : Value) : Option Value :=
  match comparison? operator with
  | some holds => (left.order? right).map fun o => .bool (holds o)
  | none => operation? (Text.toLower operator) left right

section Numbers

variable {operator : String} {v w : Value} {m n : Int}

/-- Arithmetic on what counts as numbers. -/
theorem result?_of_arithmetic? {apply : Int → Int → Int} (h : arithmetic? operator = some apply)
    (hv : v.number? = some m) (hw : w.number? = some n) :
    result? operator v w = some (.int (apply m n)) := by
  unfold arithmetic? at h
  split at h
  case h_4 => cases h
  all_goals
    obtain rfl := Option.some.inj h
    cases v <;> cases w <;> cases hv <;> cases hw <;> rfl

/-- A comparison of what counts as numbers. -/
theorem result?_of_comparison? {holds : Ordering → Bool} (h : comparison? operator = some holds)
    (hv : v.number? = some m) (hw : w.number? = some n) :
    result? operator v w = some (.bool (holds (compare m n))) := by
  have horder : v.order? w = some (compare m n) := by
    cases v <;> cases w <;> cases hv <;> cases hw <;> rfl
  rw [result?, h]
  simp only [horder, Option.map_some]

end Numbers

/-- What the variables hold. -/
abbrev Store := String → Option Value

namespace Store

/-- All variables hold numbers. -/
def ofNumbers (ρ : String → Int) : Store := fun n => some (.int (ρ n))

/-- The store after a variable has been given a value. -/
def set (s : Store) (x : String) (v : Value) : Store := fun y => if y = x then some v else s y

@[simp]
theorem set_same (s : Store) (x : String) (v : Value) : s.set x v x = some v := if_pos rfl

theorem set_other (s : Store) {x y : String} (h : y ≠ x) (v : Value) : s.set x v y = s y := if_neg h

/-- The store after a part of a variable has been given a value. -/
def assign? (s : Store) (x : String) (path : List Selector) (v : Value) : Option Store :=
  match path with
  | [] => some (s.set x v)
  | _ => do some (s.set x (← Value.put? v path (← s x)))

end Store

/-- What calls of routines do. Functions look at variables but do not change them. -/
structure Routines where
  /-- The value of a function for given arguments. -/
  function? : String → List Value → Store → Option Value
  /-- Whether a function looks at a variable. -/
  looksAt : String → String → Bool
  /-- A variable that a function does not look at has no influence on its value. -/
  function?_set : ∀ f x, looksAt f x = false → ∀ arguments s v,
    function? f arguments (Store.set s x v) = function? f arguments s
  /-- What a procedure makes of the variables. -/
  procedure? : String → List Value → Store → Option Store

/-- No routine can be called. -/
def noRoutines : Routines where
  function? _ _ _ := none
  looksAt _ _ := false
  function?_set _ _ _ _ _ _ := rfl
  procedure? _ _ _ := none

/-! ### Expressions -/

variable (r : Routines)

mutual

/-- The value of an expression. -/
def value? (s : Store) : Code → Option Value
  | .integer (.int n) => some (.int n)
  | .integer (.bool b) => some (.bool b)
  | .string text => some (.text text)
  | .char code => some (.char code)
  | .name (.text x) => s x
  | .element array indices => do
    Value.at? (← (← values? s indices).mapM Value.selector?) (← s array)
  | .field record (.text f) => do Value.at? [.field f] (← value? s record)
  | .compare (.text operator) left right | .binary (.text operator) left right => do
    result? operator (← value? s left) (← value? s right)
  | .functionCall (.text f) arguments => do r.function? f (← values? s arguments) s
  | _ => none

/-- The values of several expressions. -/
def values? (s : Store) : List Code → Option (List Value)
  | [] => some []
  | c :: cs => do
    let first ← value? s c
    some (first :: (← values? s cs))

end

end MiniPascal.Execution
