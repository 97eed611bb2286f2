import MiniPascal.Proofs.Analysis.Binding
import MiniPascal.Proofs.Analysis.Programs

/-!
# Checking Arithmetic

An expression is arithmetic if it is made of literals, names, groups, negations and operators that
join operands. Its check against a basic type is exact: it gives the code of the expression if all
names and literals are of the type and all operators are among those that are known, and it refuses
the expression otherwise.

* `checkBasic_decides`, `checkLiteral_decides`, `checkLooseTerm_decides`: what is decided about
  the parts of an expression;
* `Expr.checkExpression_arithmetic`: what is decided about arithmetic expressions.
-/

namespace MiniPascal

open Check Checking Declare Declaring

/-! ### Points of a program -/

/-- The names that are visible at a point of a program, and the state of its analysis there. -/
inductive VisibleIn : Env → Analysis → Prop
  /-- Before a program nothing is visible. -/
  | start : VisibleIn [] .start
  /-- Declarations that are accepted make their names visible. -/
  | declare {env : Env} {s s' : Analysis} {ds : List Decl} (h : VisibleIn env s)
      (hrun : Runs (declareAll (.list (declTrees ds))) s () s') :
    VisibleIn (declsEnv env none ds) s'
  /-- In a routine its parameters are visible. -/
  | routine {env : Env} {s s' : Analysis} {kind n : String} {ps : List Parameter}
      {result : TypeExpr} {routine : OpenRoutine} (h : VisibleIn env s)
      (hrun : Runs (openRoutine (.text kind) (.text n) (.list (ps.map Parameter.toTree))
        result.toTree) s routine s') : VisibleIn (routineEnv env kind n ps result) s'
  /-- Statements are checked in a scope of their own. -/
  | body {env : Env} {s : Analysis} (h : VisibleIn env s) :
      VisibleIn env { s with scopes := s.scopes.enter }

variable {env : Env}

/-- What is found for the names describes what they stand for. -/
theorem VisibleIn.fits {a : Analysis} (h : VisibleIn env a) :
    a.Sees env := by
  induction h with
  | start => exact Analysis.start_fits
  | @declare env s s' ds _ hrun ih => exact (declareList_eachBody ds ih .none hrun).2
  | routine _ hrun ih => exact (openRoutine_fits ih hrun).2
  | body _ ih => exact ih.enter

namespace BasicType

theorem ofName?_name (t : BasicType) : ofName? t.name = some t := by
  cases t <;> decide

end BasicType

namespace Checking

variable {env : Env} {a : Analysis}

theorem checkLiteral_decides (t : BasicType) {value : Tree} (hvalue : Succeeds value.plain) :
    (checkLiteral (.text t.name) value).Decides a (t.admits value = true) () := by
  have hbasic : BasicType.ofTree? (.text t.name) = .ok (some t) := congrArg _ t.ofName?_name
  obtain ⟨shown, hshown⟩ := hvalue
  refine .step_bind hbasic (.ite (fun hnot => ?_) fun hnot => .pure (by simpa using hnot))
  exact .step_bind hshown (.step_bind rfl (.refuse (by simpa using hnot)))

theorem checkLooseTerm_decides (operator : String) :
    (checkLooseTerm (.text operator)).Decides a (operator ∈ Tree.chainOperators) () := by
  have hany : Tree.chainOperators.any (Tree.text operator).isTextOf = true ↔
      operator ∈ Tree.chainOperators := by
    simp [Tree.isTextOf]
  refine .ite (fun hnot => ?_) fun hnot => .pure (hany.1 (by simpa using hnot))
  refine .step_bind rfl (.refuse fun hmem => ?_)
  rw [hany.2 hmem] at hnot
  exact Bool.false_ne_true hnot

/-- A variable, a constant or a parameter passes if it was declared with the type. All else that is
known about names, if it shows a type at all, shows another one. -/
theorem checkBasic_decides (h : Ready env a) (t : BasicType) (n : String) :
    (checkVariable (.text t.name) (.text n)).Decides a (env.static? n = some (.named t.name))
      () := by
  refine (checkVariable_decides h.fits (h.known n) (.text t.name)).congr ⟨?_, fun hn => ?_⟩
  · rintro ⟨m, hm, hpasses⟩
    rw [Env.static?, hm, Option.bind_some]
    exact (h.fits.passes_iff hm (isMark_name t) (.inr (isBasic_name t))).1 (hpasses _ rfl)
  · obtain ⟨m, hm, hstatic⟩ := Option.bind_eq_some_iff.1 hn
    refine ⟨m, hm, fun e he => ?_⟩
    obtain rfl := Tree.text.inj he
    exact (h.fits.passes_iff hm (isMark_name t) (.inr (isBasic_name t))).2 hstatic

end Checking

/-! ### Arithmetic expressions -/

mutual

/-- Whether an expression has no parts but literals, names, groups, negations and chains. -/
def Expr.isArithmetic : Expr → Bool
  | .operand value => value.isArithmetic
  | .compare _ _ _ => false

def Operand.isArithmetic : Operand → Bool
  | .number _ | .literal _ | .truth _ | .designator (.name _) => true
  | .designator _ => false
  | .group inner | .negation inner => inner.isArithmetic
  | .binary left _ right => left.isArithmetic && right.isArithmetic

end

mutual

/-- The values of the literals in an expression that stand outside of indices and arguments. -/
def Expr.literals : Expr → List Tree
  | .operand value => value.literals
  | .compare left _ right => left.literals ++ right.literals

def Operand.literals : Operand → List Tree
  | .number value => [.int value]
  | .literal value => [.text value]
  | .truth value => [.bool value]
  | .designator _ => []
  | .group inner | .negation inner => inner.literals
  | .binary left _ right => left.literals ++ right.literals

end

mutual

/-- The operators in an expression that stand outside of indices and arguments. -/
def Expr.operators : Expr → List String
  | .operand value => value.operators
  | .compare left operator right => left.operators ++ operator :: right.operators

def Operand.operators : Operand → List String
  | .number _ | .literal _ | .truth _ | .designator _ => []
  | .group inner | .negation inner => inner.operators
  | .binary left operator right => left.operators ++ operator :: right.operators

end

theorem Operand.hasOutline_of_isArithmetic {o : Operand} (h : o.isArithmetic = true) :
    o.toTree.hasOutline = true := by
  cases o with
  | designator place =>
    cases place with
    | name n => rfl
    | _ => exact absurd h Bool.false_ne_true
  | _ => rfl

/-- Names and literals are of a basic type, and operators are known. -/
def Conforms (env : Env) (t : BasicType) (names : List String) (literals : List Tree)
    (operators : List String) : Prop :=
  (∀ n ∈ names, env.static? n = some (.named t.name)) ∧ (∀ v ∈ literals, t.admits v = true) ∧
    ∀ operator ∈ operators, operator ∈ Tree.chainOperators

theorem conforms_append {t : BasicType} {ns ns' : List String} {vs vs' : List Tree}
    {os os' : List String} {operator : String} :
    Conforms env t (ns ++ ns') (vs ++ vs') (os ++ operator :: os') ↔
      Conforms env t ns vs os ∧ operator ∈ Tree.chainOperators ∧ Conforms env t ns' vs' os' := by
  simp only [Conforms, List.forall_mem_append, List.forall_mem_cons]
  tauto

namespace Checking

variable {env : Env} {a : Analysis} {ns os : List String} {vs : List Tree} {t : BasicType}
  {operator : String} {right : Operand}

/-- The tree has code, and its check against a basic type gives this code if names, literals and
operators conform. -/
def DecidesCode (env : Env) (a : Analysis) (t : BasicType) (tree : Tree) (names : List String)
    (literals : List Tree) (operators : List String) : Prop :=
  Succeeds tree.outline ∧ ∃ code, tree.generate = .ok code ∧
    (checkExpression (.text t.name) tree).Decides a (Conforms env t names literals operators) code

theorem decidesCode_literal (ha : a.code = none) (t : BasicType) {value : Tree} {code : Code}
    (hnull : value.isNull = false) (hvalue : Succeeds value.plain)
    (hcode : (Tree.factor value .null .null (.bool false)).generate = .ok code) :
    DecidesCode env a t (.factor value .null .null (.bool false)) [] [value] [] := by
  have houtline : (Tree.factor value .null .null (.bool false)).outline =
      .ok (.dict [("node", .text "FactorNode"), ("value", value)]) := by
    rw [Tree.outline, hnull]
    rfl
  refine ⟨⟨_, houtline⟩, code, hcode, Decides.congr (p := t.admits value = true ∧ True) ?_ ?_⟩
  · refine .step_bind houtline (.ite (fun htrue => absurd htrue Bool.false_ne_true) fun _ => ?_)
    refine .ite (fun htrue => absurd htrue Bool.false_ne_true) fun _ => .ite (fun htrue => ?_) ?_
    · rw [hnull] at htrue
      exact absurd htrue Bool.false_ne_true
    · exact fun _ => (checkLiteral_decides t hvalue).bind fun _ => .generate ha hcode
  · simp [Conforms]

theorem decidesCode_name (h : Ready env a) (t : BasicType) {n : String} (hn : n ≠ "") :
    DecidesCode env a t (Operand.designator (.name n)).toTree [n] [] [] := by
  have htruthy := Tree.isTruthy_text hn
  have hcode : (Operand.designator (.name n)).toTree.generate = .ok (.name (.text n)) := by
    rw [Operand.toTree, Tree.generate, if_neg (by decide), if_pos htruthy]
    rfl
  refine ⟨⟨_, rfl⟩, _, hcode, ?_⟩
  refine Decides.congr (p := env.static? n = some (.named t.name) ∧ True) ?_ ?_
  · refine .step_bind rfl (.ite (fun htrue => absurd htrue Bool.false_ne_true) fun _ => ?_)
    refine .ite (fun _ => ?_) fun hfalse => absurd htruthy hfalse
    exact (checkBasic_decides h t n).bind fun _ => .generate h.code hcode
  · simp [Conforms]

/-- A factor with an inner part, be it negated or not, is decided by that part. -/
theorem decidesCode_inner {inner negated : Tree} (hinner : DecidesCode env a t inner ns vs os)
    (hshape : (∃ v n i g, inner = .factor v n i g) ∨ ∃ l o r, inner = .expression l o r) :
    DecidesCode env a t (.factor .null .null inner negated) ns vs os := by
  obtain ⟨⟨shown, hshown⟩, code, hcode, hdecides⟩ := hinner
  have hpresent : inner.isTruthy = true ∧ inner.isNull = false := by
    rcases hshape with ⟨v, n, i, g, rfl⟩ | ⟨l, o, r, rfl⟩ <;> exact ⟨rfl, rfl⟩
  have houtline : (Tree.factor .null .null inner negated).outline = .ok (.dict
      [("node", .text "FactorNode"), ("sub_expression", shown), ("is_not", negated)]) := by
    simp only [Tree.outline, hpresent.2, hshown]
    rfl
  refine ⟨⟨_, houtline⟩, code, ?_, .step_bind houtline (.ite (fun _ => ?_) fun hfalse => ?_)⟩
  · rw [generate_factor_inner hpresent.1, hcode]
  · rcases hshape with ⟨v, n, i, g, rfl⟩ | ⟨l, o, r, rfl⟩ <;> exact hdecides
  · exact absurd hpresent.1 hfalse

/-- An arithmetic operand of a chain is checked before the rest of the chain. -/
theorem checkTerms_decides {expected : Tree} {o : Operand} (ho : o.isArithmetic = true)
    {rest : List Tree} {p q : Prop} {code : Code}
    (hfirst : (checkExpression expected o.toTree).Decides a p code)
    (hrest : (checkTerms expected rest).Decides a q ()) :
    (checkTerms expected (o.toTree :: rest)).Decides a (p ∧ q) () := by
  have hboth : (checkExpression expected o.toTree >>= fun _ => checkTerms expected rest).Decides a
      (p ∧ q) () := hfirst.bind fun _ => hrest
  cases o with
  | designator place =>
    cases place with
    | name n => exact hboth
    | _ => exact absurd ho Bool.false_ne_true
  | _ => exact hboth

theorem decidesCode_operandOnly {o : Operand} (harithmetic : o.isArithmetic = true)
    (ho : DecidesCode env a t o.toTree ns vs os) :
    DecidesCode env a t (Expr.operand o).toTree ns vs os := by
  obtain ⟨⟨shown, hshown⟩, hcode⟩ := ho
  refine ⟨⟨.dict [("node", .text "ExpressionNode"), ("left", shown)], ?_⟩, hcode⟩
  simp only [Expr.toTree, Tree.outline, Operand.hasOutline_of_isArithmetic harithmetic, hshown]
  rfl

theorem generate_binary {left : Operand} {l r : Code} (hl : left.toTree.generate = .ok l)
    (hr : right.toTree.generate = .ok r) :
    (Operand.binary left operator right).toTree.generate = .ok (.binary (.text operator) l r) := by
  simp only [Operand.toTree, Tree.generate, Tree.generateTerms, Tree.joinTerms, hl, hr]
  rfl

theorem decidesCode_binary (ha : a.code = none) {left : Operand} {ns' : List String}
    {vs' : List Tree} {os' : List String} (hleft : left.isArithmetic = true)
    (hright : right.isArithmetic = true) (hfirst : DecidesCode env a t left.toTree ns vs os)
    (hlast : DecidesCode env a t right.toTree ns' vs' os') :
    DecidesCode env a t (Operand.binary left operator right).toTree (ns ++ ns') (vs ++ vs')
      (os ++ operator :: os') := by
  obtain ⟨⟨shown, hshown⟩, l, hl, hfirst⟩ := hfirst
  obtain ⟨⟨shown', hshown'⟩, r, hr, hlast⟩ := hlast
  have hcode : (Operand.binary left operator right).toTree.generate = _ := generate_binary hl hr
  have houtline : Succeeds (Operand.binary left operator right).toTree.outline := by
    have hfactors := Operand.hasOutline_of_isArithmetic hleft
    have hfactors' := Operand.hasOutline_of_isArithmetic hright
    simp only [Operand.toTree, Tree.outline, Tree.outlineElements, Tree.outlineItems, hfactors,
      hfactors', hshown, hshown']
    exact ⟨_, rfl⟩
  have hend : (checkTerms (.text t.name) []).Decides a True () := .pure trivial
  have hterms := checkTerms_decides hright hlast hend
  have hlater : (checkTerms (.text t.name) [.text operator, right.toTree]).Decides a _ () :=
    (checkLooseTerm_decides operator).bind fun _ => hterms
  have hchain := checkTerms_decides hleft hfirst hlater
  obtain ⟨whole, hwhole⟩ := houtline
  refine ⟨⟨whole, hwhole⟩, _, hcode, Decides.congr (.step_bind hwhole (hchain.bind fun _ =>
    .generate ha hcode)) ?_⟩
  rw [and_true, and_true]
  exact conforms_append.symm

mutual

/-- The check of an arithmetic expression against a basic type decides whether it conforms. -/
theorem decidesCode_expr (h : Ready env a) (t : BasicType) : ∀ {e : Expr}, e.Within .plain →
    e.isArithmetic = true → DecidesCode env a t e.toTree e.names e.literals e.operators
  | .operand _, hformed, ho =>
    decidesCode_operandOnly ho (decidesCode_operand h t hformed ho)
  | .compare _ _ _, _, he => absurd he Bool.false_ne_true

theorem decidesCode_operand (h : Ready env a) (t : BasicType) : ∀ {o : Operand}, o.Within .plain →
    o.isArithmetic = true → DecidesCode env a t o.toTree o.names o.literals o.operators
  | .number v, _, _ => decidesCode_literal h.code t rfl ⟨_, rfl⟩ rfl
  | .literal s, _, _ => by
    obtain ⟨code, hcode, -⟩ := Operand.generates (o := .literal s) rfl
    exact decidesCode_literal h.code t rfl ⟨_, rfl⟩ hcode
  | .truth v, _, _ => decidesCode_literal h.code t rfl ⟨_, rfl⟩ rfl
  | .designator (.name _), hformed, _ => decidesCode_name h t hformed.2.1
  | .designator (.element _ _), _, ho | .designator (.field _ _), _, ho
  | .designator (.call _ _), _, ho => absurd ho Bool.false_ne_true
  | .group inner, hformed, ho => by
    have hinner := decidesCode_expr h t (e := inner) hformed ho
    cases inner <;> exact decidesCode_inner hinner (.inr ⟨_, _, _, rfl⟩)
  | .negation inner, hformed, ho => by
    have hinner := decidesCode_operand h t (o := inner) hformed.2 ho
    cases inner with
    | designator place =>
      cases place with
      | name n => exact decidesCode_inner hinner (.inl ⟨_, _, _, _, rfl⟩)
      | _ => exact absurd ho Bool.false_ne_true
    | binary left operator right => exact hformed.1.elim
    | _ => exact decidesCode_inner hinner (.inl ⟨_, _, _, _, rfl⟩)
  | .binary left operator right, hformed, ho => by
    obtain ⟨hleft, hright⟩ := Bool.and_eq_true_iff.1 ho
    exact decidesCode_binary h.code hleft hright (decidesCode_operand h t hformed.1 hleft)
      (decidesCode_operand h t hformed.2.2.2 hright)

end

end Checking

end MiniPascal
