import MiniPascal.Proofs.Code.Rewording
import MiniPascal.Proofs.Parsing.Texts
import MiniPascal.Tree.Evaluate

/-!
# Negation

The word `NOT` before a factor is kept as a mark on a factor around it. A factor with an inner part
is evaluated, and lowered to code, by its inner part alone, and so the mark is never looked at.

* `Operand.operandAt_toTree`: where an expression stands does not matter to its value;
* `factor_parse_not`: a negated factor has the value and the code of the factor.
-/

namespace MiniPascal

open MiniPascal.Tree

/-! ### Evaluating where an expression stands

Lists that are written in an expression stand at the end of a path. The grammar forms no such lists,
so the path to an expression has no influence on its value. -/

theorem operandAt_factor_inner {inner : Tree} (h : inner.isNull = false) (negated : Tree)
    (path : List Nat) :
    operandAt path (.factor .null .null inner negated) = operandAt (0 :: path) inner := by
  rw [operandAt, if_neg (by decide), if_neg (by decide), if_pos (by rw [h]; rfl)]

mutual

theorem Expr.operandAt_toTree (e : Expr) (p q : List Nat) :
    operandAt p e.toTree = operandAt q e.toTree := by
  match e with
  | .operand o =>
    rw [Expr.toTree, operandAt, operandAt, o.operandAt_toTree (0 :: p) (0 :: q)]
    rfl
  | .compare l w r =>
    rw [Expr.toTree, operandAt, operandAt, l.operandAt_toTree (0 :: p) (0 :: q),
      r.operandAt_toTree (1 :: p) (1 :: q)]

theorem Operand.operandAt_toTree (o : Operand) (p q : List Nat) :
    operandAt p o.toTree = operandAt q o.toTree := by
  match o with
  | .number n | .literal s | .truth b => rfl
  | .designator place => cases place <;> rfl
  | .group e =>
    rw [Operand.toTree, operandAt_factor_inner e.isNull_toTree,
      operandAt_factor_inner e.isNull_toTree]
    exact e.operandAt_toTree _ _
  | .negation o =>
    rw [Operand.toTree, operandAt_factor_inner o.isNull_toTree,
      operandAt_factor_inner o.isNull_toTree]
    exact o.operandAt_toTree _ _
  | .binary l w r =>
    simp only [Operand.toTree, operandAt, sumAt, addTerms]
    rw [l.operandAt_toTree _ (2 :: q), r.operandAt_toTree _ (0 :: q)]
    rfl

end

/-! ### Parsing with more fuel -/

theorem Grammar.gives_factor_add {fuel : Nat} {ts rest : List Token} {o : Operand} (extra : Nat)
    (h : Parse.Gives (factor fuel) ts o rest) :
    rest <:+ ts ∧ Parse.Gives (factor (extra + fuel)) ts o rest := by
  obtain ⟨-, hrest, hsecond⟩ := EndsBy.of_gives (V := .any) .same extra
    (fun t _ => Vocabulary.any_admits t) h (ends_expressions _ _).2.2.2.1
  obtain ⟨o', left, hgives, ho, rfl⟩ := hsecond trivial rfl
  rw [ho.eq]
  exact ⟨hrest, hgives⟩

theorem Grammar.gives_factor_not {fuel : Nat} {t : Token} {ts rest : List Token} {o : Operand}
    (ht : t.kind = .kwNot) (h : Parse.Gives (factor fuel) ts o rest) :
    Parse.Gives (factor (fuel + 1)) (t :: ts) (.negation o) rest := by
  refine (Parse.gives_kind (t :: ts)).bind ?_
  rw [kindOf_cons, ht]
  exact (Parse.gives_takeAny t ts).bind (h.bind (.pure _ _))

/-! ### Negated factors -/

theorem Operand.evaluate_negation (o : Operand) (context : List (String × Tree)) :
    (Operand.negation o).toTree.evaluate context = o.toTree.evaluate context := by
  rw [evaluate, evaluate, Operand.toTree, operandAt_factor_inner o.isNull_toTree,
    o.operandAt_toTree [0] []]

theorem Tree.ne_bool_not_isTruthy (v : Tree) : v ≠ .bool !v.isTruthy := by
  intro h
  have hopposite := congrArg isTruthy h
  change v.isTruthy = !v.isTruthy at hopposite
  cases hv : v.isTruthy with
  | true | false => rw [hv] at hopposite; exact absurd hopposite nofun

/-- Where a factor can be parsed, it can be parsed with a word of negation before it, which is taken
with it. What comes of it has in every context the value of the factor, or fails as the factor does;
it never has the opposite truth value. Its code, too, is that of the factor. -/
theorem factor_parse_not {t : Token} {ts : List Token} {tree : Tree} {taken : Nat}
    (ht : t.kind = .kwNot) (h : Production.factor.parse ts = .ok (tree, taken)) :
    ∃ negated, Production.factor.parse (t :: ts) = .ok (negated, taken + 1) ∧
      (∀ context, negated.evaluate context = tree.evaluate context) ∧
      (∀ context v, tree.evaluate context = .ok v →
        negated.evaluate context ≠ .ok (.bool !v.isTruthy)) ∧
      negated.generate = tree.generate := by
  obtain ⟨o, rest, hgives, rfl, rfl⟩ := (Production.parse_eq_ok rfl).1 h
  obtain ⟨hrest, hgives⟩ := Grammar.gives_factor_add 7 hgives
  refine ⟨(Operand.negation o).toTree, ?_, o.evaluate_negation, ?_, ?_⟩
  · refine (Production.parse_eq_ok rfl).2 ⟨.negation o, rest, ?_, rfl, ?_⟩
    · -- One more token gives eight more levels, one of which the word of negation needs.
      have hmore := Grammar.gives_factor_not ht hgives
      have hfuel : 7 + Grammar.depthFor ts + 1 = Grammar.depthFor (t :: ts) := by
        simp only [Grammar.depthFor, List.length_cons]
        omega
      exact hfuel ▸ hmore
    · exact (Nat.succ_sub hrest.length_le).symm
  · intro context v hv heq
    rw [o.evaluate_negation, hv] at heq
    exact v.ne_bool_not_isTruthy (Except.ok.inj heq)
  · exact generate_factor_inner o.isTruthy_toTree

theorem factor_parse_not_name :
    ∃ negated, Production.factor.parse
        [{ kind := .kwNot, value := "NOT", line := 1, column := 1 },
          { kind := .identifier, value := "x", line := 1, column := 5 }] = .ok (negated, 2) ∧
      negated.evaluate [("x", .bool true)] = .ok (.bool true) ∧
      negated.generate = .ok (.name (.text "x")) := by
  have hname : Production.factor.parse
      [{ kind := .identifier, value := "x", line := 1, column := 5 }] =
        .ok ((Operand.designator (.name "x")).toTree, 1) := rfl
  obtain ⟨negated, hparse, hvalue, -, hcode⟩ := factor_parse_not
    (t := { kind := .kwNot, value := "NOT", line := 1, column := 1 }) rfl hname
  exact ⟨negated, hparse, (hvalue _).trans rfl, hcode.trans rfl⟩

end MiniPascal
