import MiniPascal.Proofs.Code.Shape
import MiniPascal.Proofs.Evaluation.Layers
import MiniPascal.Proofs.Parsing.Texts

/-!
# Comparisons and Their Code

An expression can be evaluated as a tree, and it can be turned into code that has a value of its
own. For whole numbers and truth values, which count as one and zero, the two values are the same.

* `expression_evaluate_eq_scalar`: such an expression evaluates to the value of its code.
-/

namespace MiniPascal

/-! ### Scalars -/

/-- Whole numbers and truth values. -/
inductive Scalar where
  | int (n : Int)
  | bool (b : Bool)
  deriving DecidableEq

namespace Scalar

/-- The tree that a scalar is. -/
def toTree : Scalar → Tree
  | int n => .int n
  | bool b => .bool b

/-- The number that a scalar counts as. -/
def number : Scalar → Int
  | int n => n
  | bool b => if b then 1 else 0

/-- The value of code that a scalar is. -/
def toValue : Scalar → Execution.Value
  | int n => .int n
  | bool b => .bool b

theorem number?_toValue (a : Scalar) : a.toValue.number? = some a.number := by
  cases a <;> rfl

end Scalar

section IsScalar

variable (known : String → Prop)

mutual

/-- The expression is made of numbers, truth values and known names, with sums and differences of
them, parentheses and comparisons. -/
def Expr.IsScalar : Expr → Prop
  | .operand value => value.IsScalar
  | .compare left operator right =>
    left.IsScalar ∧ (Execution.comparison? operator).isSome ∧ right.IsScalar

def Operand.IsScalar : Operand → Prop
  | .number _ | .truth _ => True
  | .designator (.name n) => known n
  | .group inner => inner.IsScalar
  | .binary left operator right =>
    left.IsScalar ∧ operator ∈ ["+", "-"] ∧ right.IsScalar
  | _ => False

end

end IsScalar

/-! ### Operators on scalars -/

namespace Scalar

/-- A sum and a difference are formed of the numbers. -/
theorem exists_applyAdditive? {operator : String} (h : operator ∈ ["+", "-"]) :
    ∃ apply, Execution.arithmetic? operator = some apply ∧ ∀ a b : Scalar,
      Tree.applyAdditive? (.text operator) a.toTree b.toTree =
        some (.ok (.int (apply a.number b.number))) := by
  rcases List.mem_pair.1 h with rfl | rfl
  · refine ⟨_, rfl, fun a b => ?_⟩
    cases a <;> cases b <;> rfl
  · refine ⟨_, rfl, fun a b => ?_⟩
    cases a <;> cases b <;> rfl

theorem same_toTree (a b : Scalar) :
    a.toTree.same b.toTree = (some (compare a.number b.number) == some .eq) := by
  cases a <;> cases b <;> (rw [toTree, toTree, Tree.same]; rfl)

theorem ordered_toTree (a b : Scalar) (test : Ordering → Bool) :
    Tree.ordered false a.toTree b.toTree test =
      .ok (.bool (test (compare a.number b.number))) := by
  have horder : a.toTree.order b.toTree = .ok (some (compare a.number b.number)) := by
    cases a <;> cases b <;> (rw [toTree, toTree, Tree.order]; rfl)
  rw [Tree.ordered, horder]
  rfl

/-- What is written with a sign is told by how the numbers compare. -/
theorem applyRelational?_eq {operator : String} {holds : Ordering → Bool}
    (h : Execution.comparison? operator = some holds) (a b : Scalar) :
    Tree.applyRelational? false (.text operator) a.toTree b.toTree =
      some (.ok (.bool (holds (compare a.number b.number)))) := by
  unfold Execution.comparison? at h
  split at h
  case h_7 => exact absurd h (by simp)
  all_goals
    obtain rfl := Option.some.inj h
    simp only [Tree.applyRelational?, ordered_toTree, same_toTree, Bool.false_or] <;> rfl

end Scalar

/-! ### Evaluating comparisons -/

namespace Tree

variable {context : List (String × Tree)}

theorem Yields.bool (v : Bool) (a b c : Tree) :
    Yields context (.factor (.bool v) a b c) (.bool v) := by
  intro path memory _
  rfl

theorem Yields.alone {t v : Tree} (h : Yields context t v) :
    Yields context (.expression t .null .null) v := by
  intro path memory hcontext
  rw [operandAt]
  simp only [bind, StateT.bind, Except.bind, h _ memory hcontext]
  rfl

theorem Yields.compare {left operator right u v w : Tree} (hleft : Yields context left u)
    (hright : Yields context right v) (htruthy : right.isTruthy = true)
    (happly : applyRelational? false operator u v = some (.ok w)) :
    Yields context (.expression left operator right) w := by
  intro path memory hcontext
  rw [operandAt, htruthy]
  simp only [bind, StateT.bind, Except.bind, hleft _ memory hcontext, if_true,
    hright _ memory hcontext, Evaluation.relate, Evaluation.operate?, Operand.identical,
    Operand.place?, Option.isSome_none, Bool.false_and, Memory.valueOf, happly, Option.getD_some]
  rfl

end Tree

open MiniPascal.Tree

/-- The tree evaluates to a scalar, and so does its code. -/
def Tree.Agrees (context : List (String × Tree)) (ρ : String → Int) (t : Tree) : Prop :=
  ∃ (v : Scalar) (code : Code), Yields context t v.toTree ∧ t.generate = .ok code ∧
    ∀ r, Execution.value? r (.ofNumbers ρ) code = some v.toValue

section Agrees

variable {context : List (String × Tree)} {ρ : String → Int}

mutual

theorem Expr.IsScalar.agrees : ∀ {e : Expr},
    e.IsScalar (fun n => n ≠ "" ∧ context.lookup n = some (.int (ρ n))) →
    e.toTree.Agrees context ρ
  | .operand value, h => by
    obtain ⟨v, code, hv, hcode, hvalue⟩ := Operand.IsScalar.agrees (o := value) h
    exact ⟨v, code, hv.alone, hcode, hvalue⟩
  | .compare left operator right, ⟨hleft, hoperator, hright⟩ => by
    obtain ⟨u, l, hu, hl, hlu⟩ := hleft.agrees
    obtain ⟨v, r, hv, hr, hrv⟩ := hright.agrees
    obtain ⟨holds, hholds⟩ := Option.isSome_iff_exists.1 hoperator
    have hsome : operator ≠ "" := by
      rintro rfl
      exact absurd hoperator (by decide)
    refine ⟨.bool (holds (compare u.number v.number)), .compare (.text operator) l r,
      hu.compare hv right.isTruthy_toTree (Scalar.applyRelational?_eq hholds u v), ?_, fun r' => ?_⟩
    · rw [Expr.toTree, generate, if_pos (isTruthy_text hsome), hl, hr]
      rfl
    · rw [Execution.value?, hlu, hrv]
      exact Execution.result?_of_comparison? hholds u.number?_toValue v.number?_toValue

theorem Operand.IsScalar.agrees : ∀ {o : Operand},
    o.IsScalar (fun n => n ≠ "" ∧ context.lookup n = some (.int (ρ n))) →
    o.toTree.Agrees context ρ
  | .number n, _ => ⟨.int n, _, .int n _ _ _, rfl, fun _ => rfl⟩
  | .truth b, _ => ⟨.bool b, _, .bool b _ _ _, rfl, fun _ => rfl⟩
  | .designator (.name n), h => by
    obtain ⟨code, hcode, rfl⟩ := Operand.endsAs_name (P := (· = .name (.text n))) h.1 rfl
    exact ⟨.int (ρ n), _, .name h.2 _ _, hcode, fun _ => rfl⟩
  | .group inner, h => by
    obtain ⟨v, code, hv, hcode, hvalue⟩ := Expr.IsScalar.agrees (e := inner) h
    refine ⟨v, code, hv.group ?_ _, ?_, hvalue⟩
    · cases inner <;> rfl
    · rw [Operand.toTree, generate_factor_inner inner.isTruthy_toTree, hcode]
  | .binary left operator right, ⟨hleft, hoperator, hright⟩ => by
    obtain ⟨u, l, hu, hl, hlu⟩ := hleft.agrees
    obtain ⟨v, r, hv, hr, hrv⟩ := hright.agrees
    obtain ⟨apply, happly, hsum⟩ := Scalar.exists_applyAdditive? hoperator
    refine ⟨.int (apply u.number v.number), .binary (.text operator) l r,
      hu.simple (.cons hv (hsum u v) (Adds.nil _)) _, ?_, fun r' => ?_⟩
    · exact Except.bind_eq_ok.2 ⟨l, hl, Except.bind_eq_ok.2 ⟨r, hr, rfl⟩⟩
    · rw [Execution.value?, hlu, hrv]
      exact Execution.result?_of_arithmetic? happly u.number?_toValue v.number?_toValue

end

end Agrees

/-- What is parsed as an expression is the tree of one. If it is made of numbers, truth values and
names of whole numbers, with sums and differences, parentheses and comparisons, then it evaluates to
the value of its code. -/
theorem expression_evaluate_eq_scalar {tokens : List Token} {tree : Tree} {taken : Nat}
    (h : Production.expression.parse tokens = .ok (tree, taken)) :
    ∃ e rest, (Grammar.expression (Grammar.depthFor tokens)).run tokens = .ok (e, rest) ∧
      tree = e.toTree ∧ ∀ (context : List (String × Tree)) (ρ : String → Int),
        e.IsScalar (fun n => n ≠ "" ∧ context.lookup n = some (.int (ρ n))) →
        ∃ (v : Scalar) (code : Code), tree.evaluate context = .ok v.toTree ∧
          tree.generate = .ok code ∧
            ∀ r, Execution.value? r (.ofNumbers ρ) code = some v.toValue := by
  obtain ⟨e, rest, hgives, rfl, -⟩ := (Production.parse_eq_ok rfl).1 h
  refine ⟨e, rest, hgives.run_eq, rfl, fun context ρ he => ?_⟩
  obtain ⟨v, code, hyields, hcode, hvalue⟩ := he.agrees
  exact ⟨v, code, hyields.evaluate, hcode, hvalue⟩

/-- `(a = 5) + (TRUE - b) <= a - 3` -/
def mixedComparison : List Token :=
  [⟨.lparen, "(", 1, 1⟩, ⟨.identifier, "a", 1, 2⟩, ⟨.eq, "=", 1, 4⟩, ⟨.number, "5", 1, 6⟩,
    ⟨.rparen, ")", 1, 7⟩, ⟨.plus, "+", 1, 9⟩, ⟨.lparen, "(", 1, 11⟩, ⟨.kwTrue, "TRUE", 1, 12⟩,
    ⟨.minus, "-", 1, 17⟩, ⟨.identifier, "b", 1, 19⟩, ⟨.rparen, ")", 1, 20⟩, ⟨.lte, "<=", 1, 22⟩,
    ⟨.identifier, "a", 1, 25⟩, ⟨.minus, "-", 1, 27⟩, ⟨.number, "3", 1, 29⟩]

def mixedExpr : Expr :=
  .compare (.binary (.group (.compare (.designator (.name "a")) "=" (.number 5))) "+"
      (.group (.operand (.binary (.truth true) "-" (.designator (.name "b"))))))
    "<=" (.binary (.designator (.name "a")) "-" (.number 3))

/-- With `a` five and `b` one, the left side is a truth value and a difference, added as numbers. -/
theorem expression_evaluate_eq_scalar_mixedComparison :
    Production.expression.parse mixedComparison = .ok (mixedExpr.toTree, 15) ∧
      mixedExpr.toTree.evaluate [("a", .int 5), ("b", .int 1)] = .ok (.bool true) ∧
      ∃ code, mixedExpr.toTree.generate = .ok code ∧
        Execution.value? Execution.noRoutines (.ofNumbers fun n => if n = "a" then 5 else 1) code =
          some (.bool true) := by
  have hparse : Production.expression.parse mixedComparison = .ok (mixedExpr.toTree, 15) := rfl
  obtain ⟨e, rest, hrun, -, hagree⟩ := expression_evaluate_eq_scalar hparse
  have hexpr : (Grammar.expression (Grammar.depthFor mixedComparison)).run mixedComparison =
      .ok (mixedExpr, []) := rfl
  obtain ⟨rfl, -⟩ := Prod.mk.inj (Except.ok.inj (hrun.symm.trans hexpr))
  obtain ⟨v, code, hv, hcode, hvalue⟩ := hagree [("a", .int 5), ("b", .int 1)]
    (fun n => if n = "a" then 5 else 1)
    (by simp [mixedExpr, Expr.IsScalar, Operand.IsScalar, Execution.comparison?, List.lookup_cons])
  have htrue : mixedExpr.toTree.generate.toOption.bind (Execution.value? Execution.noRoutines
      (.ofNumbers fun n => if n = "a" then 5 else 1)) = some (.bool true) := rfl
  rw [hcode] at htrue
  obtain rfl : v = .bool true := by
    cases v with
    | int n => cases (hvalue _).symm.trans htrue
    | bool b => rw [Execution.Value.bool.inj (Option.some.inj ((hvalue _).symm.trans htrue))]
  exact ⟨hparse, hv, code, hcode, hvalue _⟩

end MiniPascal
