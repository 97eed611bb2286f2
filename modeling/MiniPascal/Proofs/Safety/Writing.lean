import MiniPascal.Proofs.Code.Shape
import MiniPascal.Proofs.Safety.Regular

/-!
# Code That Can Be Generated

Expressions and statements that can be written as code are: their code is generated without a fault.
The literals in the code of an expression, which tell the value of an index, can be counted.
-/

namespace MiniPascal

open MiniPascal.Tree

/-! ### Literals in code -/

def Code.Countable (c : Code) : Prop := Succeeds c.toTree.literals

theorem succeeds_itemLiterals : ∀ {ts : List Tree}, (∀ t ∈ ts, Succeeds t.literals) →
    Succeeds (itemLiterals ts)
  | [], _ => succeeds_ok _
  | t :: ts, h => by
    rw [List.forall_mem_cons] at h
    exact h.1.bind fun _ _ => (succeeds_itemLiterals h.2).bind fun _ _ => succeeds_pure _

/-- The literals in a dictionary can be counted if those of its entries can. -/
theorem succeeds_literals_dict : ∀ {es : List (String × Tree)}, (∀ e ∈ es, Succeeds e.2.literals) →
    Succeeds (literals (.dict es))
  | [], _ => succeeds_ok _
  | (name, value) :: es, h => by
    rw [List.forall_mem_cons] at h
    exact h.1.bind fun _ _ => (succeeds_literals_dict h.2).bind fun _ _ => succeeds_pure _

theorem succeeds_literals_text (s : String) : Succeeds (literals (.text s)) := succeeds_ok _

theorem succeeds_literals_codes {codes : List Code} (h : ∀ c ∈ codes, c.Countable) :
    Succeeds (literals (.list (Code.toTrees codes))) := by
  refine succeeds_itemLiterals fun t ht => ?_
  rw [Code.toTrees_eq_map] at ht
  obtain ⟨c, hc, rfl⟩ := List.mem_map.1 ht
  exact h c hc

/-! ### Expressions -/

namespace Code.Countable

theorem element (array : String) {indices : List Code} (h : ∀ c ∈ indices, c.Countable) :
    (Code.element array indices).Countable :=
  succeeds_literals_dict (by simp [succeeds_literals_text, succeeds_literals_codes h])

theorem field {record : Code} (h : record.Countable) (n : String) :
    (Code.field record (.text n)).Countable :=
  succeeds_literals_dict (by simpa [succeeds_literals_text, Countable] using h)

theorem compare (operator : String) {left right : Code} (hleft : left.Countable)
    (hright : right.Countable) : (Code.compare (.text operator) left right).Countable :=
  succeeds_literals_dict (by simpa [succeeds_literals_text] using ⟨hleft, hright⟩)

theorem binary (operator : String) {left right : Code} (hleft : left.Countable)
    (hright : right.Countable) : (Code.binary (.text operator) left right).Countable :=
  succeeds_literals_dict (by simpa [succeeds_literals_text] using ⟨hleft, hright⟩)

theorem functionCall (n : String) {arguments : List Code} (h : ∀ c ∈ arguments, c.Countable) :
    (Code.functionCall (.text n) arguments).Countable :=
  succeeds_literals_dict (by simp [succeeds_literals_text, succeeds_literals_codes h])

end Code.Countable

mutual

theorem Expr.generates : ∀ {e : Expr}, e.isWritable = true →
    EndsAs false (generate e.toTree) Code.Countable
  | .operand value, h => Operand.generates (o := value) h
  | .compare _ operator _, h => by
    rw [Expr.isWritable, Bool.and_eq_true] at h
    exact Expr.endsAs_compare (Operand.generates h.1) (Operand.generates h.2) (.compare operator)

theorem Operand.generates : ∀ {o : Operand}, o.isWritable = true →
    EndsAs false (generate o.toTree) Code.Countable
  | .number _, _ | .truth _, _ => ⟨_, rfl, succeeds_ok _⟩
  | .literal _, _ => Operand.endsAs_literal (succeeds_ok _) fun _ => succeeds_ok _
  | .designator (.name n), h => by
    refine Operand.endsAs_name ?_ (succeeds_ok _)
    rintro rfl
    exact absurd h (by decide)
  | .designator (.element base index), h => Designator.generates (d := .element base index) h rfl
  | .designator (.field base f), h => Designator.generates (d := .field base f) h rfl
  | .designator (.call base arguments), h => Designator.generates (d := .call base arguments) h rfl
  | .group inner, h => by
    rw [Operand.toTree, generate_factor_inner inner.isTruthy_toTree]
    exact Expr.generates (e := inner) h
  | .negation inner, h => by
    rw [Operand.toTree, generate_factor_inner inner.isTruthy_toTree]
    exact Operand.generates (o := inner) h
  | .binary _ operator _, h => by
    rw [Operand.isWritable, Bool.and_eq_true] at h
    exact Operand.endsAs_binary (Operand.generates h.1) (Operand.generates h.2) (.binary operator)

theorem Designator.generates : ∀ {d : Designator}, d.isWritable = true → d.isName = false →
    EndsAs false (generate d.toTree) Code.Countable
  | .element base _, h, _ => by
    rw [Designator.isWritable, Bool.and_eq_true, Bool.and_eq_true] at h
    obtain ⟨n, hn⟩ := Option.isSome_iff_exists.1 h.1.1
    have hname : EndsAs false (baseName base.toTree) fun _ => True := by
      rw [baseName, Designator.arrayBase_toTree hn]
      exact .pure trivial
    refine Designator.endsAs_element hname (Designator.generatesIndices h.1.2)
      (Expr.generates h.2) fun _ houter hlast => .element _ ?_
    exact List.forall_mem_append.2 ⟨houter, List.forall_mem_singleton.2 hlast⟩
  | .field (.name n) f, _, _ =>
    have hname : (Code.name (.text n)).Countable := succeeds_ok _
    ⟨_, rfl, hname.field f⟩
  | .field (.element base index) f, h, _ =>
    (Designator.generates (d := .element base index) h rfl).andThen fun _ hc => .pure (hc.field f)
  | .field (.field base n) f, h, _ =>
    (Designator.generates (d := .field base n) h rfl).andThen fun _ hc => .pure (hc.field f)
  | .field (.call base arguments) f, h, _ =>
    (Designator.generates (d := .call base arguments) h rfl).andThen fun _ hc => .pure (hc.field f)
  | .call (.name n) _, h, _ => Designator.endsAs_call (exprs_generate h) (.functionCall n)

/-- The indices of nested accesses have code. -/
theorem Designator.generatesIndices : ∀ {d : Designator}, d.isWritable = true →
    EndsAs false (generateIndices d.toTree) (∀ c ∈ ·, c.Countable)
  | .element _ _, h => by
    rw [Designator.isWritable, Bool.and_eq_true, Bool.and_eq_true] at h
    exact Designator.endsAs_indices (Designator.generatesIndices h.1.2) (Expr.generates h.2)
  | .name _, _ | .field _ _, _ | .call _ _, _ => ⟨[], rfl, List.forall_mem_nil _⟩

theorem exprs_generate : ∀ {es : List Expr}, exprsAreWritable es = true →
    EndsAs false (generateAll (exprTrees es)) (∀ c ∈ ·, c.Countable)
  | [], _ => ⟨[], rfl, List.forall_mem_nil _⟩
  | _ :: _, h => by
    rw [exprsAreWritable, Bool.and_eq_true] at h
    exact endsAs_generateAll_cons (Expr.generates h.1) (exprs_generate h.2)

end

/-! ### Statements -/

mutual

/-- A statement that can be written as code is. -/
theorem Stmt.generates : ∀ {st : Stmt}, st.isWritable = true →
    EndsAs false (generate st.toTree) fun _ => True
  | .compound _, h => (stmts_generate h).andThen fun _ _ => .pure trivial
  | .assign target _, h => by
    rw [Stmt.isWritable, Bool.and_eq_true] at h
    refine Stmt.endsAs_assign (T := fun _ => True) (fun _ => ⟨rfl, trivial⟩) (fun hselected => ?_)
      (Expr.generates h.2) fun _ _ => trivial
    refine (Designator.generates h.1 ?_).imp fun _ _ => trivial
    cases target with
    | element | field => rfl
    | _ => exact nomatch hselected
  | .ifThen _ _, h | .whileLoop _ _, h => by
    rw [Stmt.isWritable, Bool.and_eq_true] at h
    exact (Expr.generates h.1).andThen fun _ _ => (Stmt.generates h.2).andThen fun _ _ =>
      .pure trivial
  | .ifElse _ _ _, h => by
    rw [Stmt.isWritable, Bool.and_eq_true, Bool.and_eq_true] at h
    exact Stmt.endsAs_ifElse (Expr.generates h.1) (Stmt.generates h.2.1) (Stmt.generates h.2.2)
      fun _ _ _ => trivial
  | .forLoop _ _ direction _ _, h => by
    simp only [Stmt.isWritable, Bool.and_eq_true, beq_iff_eq] at h
    have hup : (Text.toLower direction != "to" || false) = false := by simp [h.1.2]
    exact hup ▸ Stmt.endsAs_forLoop (Expr.generates h.1.1) (Expr.generates h.2.1)
      (Stmt.generates h.2.2) fun _ _ _ => trivial
  | .call _ _, h => Stmt.endsAs_call (exprs_generate h) fun _ => trivial

theorem stmts_generate : ∀ {ss : List Stmt}, stmtsAreWritable ss = true →
    EndsAs false (generateAll (stmtTrees ss)) fun _ => True
  | [], _ => ⟨[], rfl, trivial⟩
  | _ :: _, h => by
    rw [stmtsAreWritable, Bool.and_eq_true] at h
    exact (Stmt.generates h.1).andThen fun _ _ => (stmts_generate h.2).andThen fun _ _ =>
      .pure trivial

end

end MiniPascal
