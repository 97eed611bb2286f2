import MiniPascal.Proofs.Code.Texts

/-!
# Which Statements Have Code

Of the statements that can be parsed only two kinds have no code: loops that do not count upward,
and assignments to an element of a field. All others have code, and nothing is missing in it but the
branch that a conditional statement may do without.

* `statement_generate_iff`: code is generated for exactly the statements that do not lack it.
-/

namespace MiniPascal

open MiniPascal.Tree

namespace Tree

mutual

/-- Nothing is missing in a dictionary, however deep, but what is under `else`. -/
def isFilled : Tree → Bool
  | .dict es => entriesAreFilled es
  | .list ts => itemsAreFilled ts
  | t => !t.isNull

def entriesAreFilled : List (String × Tree) → Bool
  | [] => true
  | (name, value) :: es =>
    (value.isFilled || (name == "else" && value.isNull)) && entriesAreFilled es

def itemsAreFilled : List Tree → Bool
  | [] => true
  | t :: ts => t.isFilled && itemsAreFilled ts

end

end Tree

theorem Designator.isFilled_toTree (place : Designator) : place.toTree.isFilled = true := by
  cases place <;> rfl

namespace Code

theorem itemsAreFilled_toTrees : ∀ {codes : List Code}, (∀ c ∈ codes, c.toTree.isFilled = true) →
    itemsAreFilled (toTrees codes) = true
  | [], _ => rfl
  | c :: codes, h => by
    rw [List.forall_mem_cons] at h
    rw [toTrees, itemsAreFilled, h.1, itemsAreFilled_toTrees h.2]
    rfl

theorem IsValue.isFilled {c : Code} (h : c.IsValue) : c.toTree.isFilled = true := by
  induction h with
  | number | truth | string | char | name => rfl
  | element _ _ _ hfirst hothers =>
    have hindices := itemsAreFilled_toTrees (List.forall_mem_cons.2 ⟨hfirst, hothers⟩)
    simp [toTree, Tree.isFilled, entriesAreFilled, hindices, isNull]
  | field _ _ hrecord => simp [toTree, Tree.isFilled, entriesAreFilled, hrecord, isNull]
  | compare _ _ _ hleft hright | binary _ _ _ hleft hright =>
    simp [toTree, Tree.isFilled, entriesAreFilled, hleft, hright, isNull]
  | functionCall place _ harguments =>
    simp [toTree, Tree.isFilled, entriesAreFilled, itemsAreFilled_toTrees harguments,
      place.isFilled_toTree, isNull]

theorem ActionWithin.isFilled {V : Vocabulary} {c : Code} (h : c.ActionWithin V) :
    c.toTree.isFilled = true := by
  induction h with
  | assign htarget _ hvalue =>
    simp [toTree, Tree.isFilled, entriesAreFilled, htarget.isValue.isFilled,
      hvalue.isValue.isFilled, isNull]
  | block _ hstatements =>
    simp [toTree, Tree.isFilled, entriesAreFilled, itemsAreFilled_toTrees hstatements, isNull]
  | whileLoop hcondition _ hbody =>
    simp [toTree, Tree.isFilled, entriesAreFilled, hcondition.isValue.isFilled, hbody, isNull]
  | ifThen hcondition _ hthen =>
    simp [toTree, Tree.isFilled, entriesAreFilled, hcondition.isValue.isFilled, hthen, isNull]
  | ifElse hcondition _ _ hthen helse =>
    simp [toTree, Tree.isFilled, entriesAreFilled, hcondition.isValue.isFilled, hthen, helse,
      isNull]
  | procedureCall _ harguments =>
    simp [toTree, Tree.isFilled, entriesAreFilled,
      itemsAreFilled_toTrees fun c hc => (harguments c hc).isValue.isFilled, isNull]

theorem ActionWithin.exists_dict {V : Vocabulary} {c : Code} (h : c.ActionWithin V) :
    ∃ es, c.toTree = .dict es := by
  cases h <;> exact ⟨_, rfl⟩

end Code

/-- The texts of tokens whose names are not empty. -/
def Vocabulary.named : Vocabulary :=
  { Vocabulary.any with
    name := (· ≠ "")
    basic := fun b => by cases b <;> decide }

theorem Vocabulary.named_codes : Vocabulary.named.Codes := ⟨fun h => h rfl, fun _ _ => trivial⟩

/-- A statement that can be parsed has no code if and only if there is a loop in it that does not
count upward, or an assignment in which an index is applied after a field has been selected.
Otherwise its code is a dictionary in which nothing is missing but branches of conditionals. -/
theorem statement_generate_iff {tokens : List Token} {tree : Tree} {taken : Nat}
    (hnames : ∀ t ∈ tokens, t.kind = .identifier → t.value ≠ "")
    (h : Production.statement.parse tokens = .ok (tree, taken)) :
    ∃ st rest, (Grammar.statement (Grammar.depthFor tokens)).run tokens = .ok (st, rest) ∧
      tree = st.toTree ∧ (¬Succeeds tree.generate ↔ st.lacksCode = true) ∧
      ∀ code, tree.generate = .ok code →
        ∃ es, code.toTree = .dict es ∧ code.toTree.isFilled = true := by
  obtain ⟨st, rest, hgives, rfl, -⟩ := (Production.parse_eq_ok rfl).1 h
  have hadmits : ∀ t ∈ tokens, Vocabulary.named.Admits t := fun t ht =>
    ⟨hnames t ht, fun _ => trivial, fun _ => trivial, fun _ => trivial⟩
  obtain ⟨hwithin, -⟩ := Grammar.EndsBy.of_gives .same 0
    hadmits hgives (Grammar.ends_statements _ _).1
  have hends := Stmt.generate_within Vocabulary.named_codes hwithin
  refine ⟨st, rest, hgives.run_eq, rfl, ?_, fun code hcode => ?_⟩
  · rw [hends.succeeds_iff, Bool.not_eq_false]
  · obtain ⟨es, hes⟩ := (hends.of_eq_ok hcode).exists_dict
    exact ⟨es, hes, (hends.of_eq_ok hcode).isFilled⟩

/-- `WHILE r.f < 3 DO IF a[i] = 0 THEN r.f[2] := 5`: only in the target is an index applied after a
field. -/
def indexedField : List Token :=
  [⟨.kwWhile, "WHILE", 1, 1⟩, ⟨.identifier, "r", 1, 7⟩, ⟨.dot, ".", 1, 8⟩, ⟨.identifier, "f", 1, 9⟩,
    ⟨.lt, "<", 1, 11⟩, ⟨.number, "3", 1, 13⟩, ⟨.kwDo, "DO", 1, 15⟩, ⟨.kwIf, "IF", 1, 18⟩,
    ⟨.identifier, "a", 1, 21⟩, ⟨.lbracket, "[", 1, 22⟩, ⟨.identifier, "i", 1, 23⟩,
    ⟨.rbracket, "]", 1, 24⟩, ⟨.eq, "=", 1, 26⟩, ⟨.number, "0", 1, 28⟩, ⟨.kwThen, "THEN", 1, 30⟩,
    ⟨.identifier, "r", 1, 35⟩, ⟨.dot, ".", 1, 36⟩, ⟨.identifier, "f", 1, 37⟩,
    ⟨.lbracket, "[", 1, 38⟩, ⟨.number, "2", 1, 39⟩, ⟨.rbracket, "]", 1, 40⟩,
    ⟨.assign, ":=", 1, 42⟩, ⟨.number, "5", 1, 45⟩]

theorem statement_generate_iff_indexedField :
    (∀ t ∈ indexedField, t.kind = .identifier → t.value ≠ "") ∧
      ∃ tree taken, Production.statement.parse indexedField = .ok (tree, taken) ∧
        ¬Succeeds tree.generate := by
  have hnames : ∀ t ∈ indexedField, t.kind = .identifier → t.value ≠ "" := by decide
  obtain ⟨tree, taken, h⟩ :
      ∃ tree taken, Production.statement.parse indexedField = .ok (tree, taken) := ⟨_, _, rfl⟩
  refine ⟨hnames, tree, taken, h, ?_⟩
  obtain ⟨st, rest, hrun, -, hiff, -⟩ := statement_generate_iff hnames h
  have hlacks : ((Grammar.statement (Grammar.depthFor indexedField)).run indexedField).toOption.map
      (·.1.lacksCode) = some true := rfl
  rw [hrun] at hlacks
  exact hiff.2 (Option.some.inj hlacks)

end MiniPascal
