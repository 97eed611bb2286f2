import MiniPascal.Code.Generate
import MiniPascal.Proofs.Success
import MiniPascal.Syntax

/-!
# The Shape of Generated Code

Code can be built in many ways, and most of them make no sense: an operator need not be a text, and
any part may be missing. The code that is generated from programs makes sense. What is generated
from an expression is the code of a value, and what is generated from a statement the code of an
action; nothing is missing in them but the branch of a conditional statement that has none.
-/

namespace MiniPascal

namespace Code

/-- The code of a value. -/
inductive IsValue : Code → Prop
  | number (n : Nat) : IsValue (.integer (.int n))
  | truth (b : Bool) : IsValue (.integer (.bool b))
  | string (s : String) : IsValue (.string s)
  | char (n : Nat) : IsValue (.char n)
  | name (n : String) : IsValue (.name (.text n))
  | element (array : String) {first : Code} {others : List Code} (hfirst : IsValue first)
      (hothers : ∀ c ∈ others, IsValue c) : IsValue (.element array (first :: others))
  | field {record : Code} (h : IsValue record) (n : String) : IsValue (.field record (.text n))
  | compare (operator : String) {left right : Code} (hleft : IsValue left)
      (hright : IsValue right) : IsValue (.compare (.text operator) left right)
  | binary (operator : String) {left right : Code} (hleft : IsValue left) (hright : IsValue right) :
    IsValue (.binary (.text operator) left right)
  | functionCall (place : Designator) {arguments : List Code} (h : ∀ c ∈ arguments, IsValue c) :
    IsValue (.functionCall place.toTree arguments)

/-- The code of what is assigned to. A call is kept as it stands. -/
inductive IsTarget : Code → Prop
  | value {c : Code} (h : IsValue c) : IsTarget c
  | call (place : Designator) (arguments : List Expr) :
    IsTarget (.name (Designator.call place arguments).toTree)

/-- The code of an action. -/
inductive IsAction : Code → Prop
  | assign {target value : Code} (htarget : IsTarget target) (hvalue : IsValue value) :
    IsAction (.assign target value)
  | block {statements : List Code} (h : ∀ c ∈ statements, IsAction c) : IsAction (.block statements)
  | whileLoop {condition body : Code} (hcondition : IsValue condition) (hbody : IsAction body) :
    IsAction (.whileLoop condition body)
  | ifThen {condition thenBranch : Code} (hcondition : IsValue condition)
      (hthen : IsAction thenBranch) : IsAction (.ifElse condition thenBranch .nothing)
  | ifElse {condition thenBranch elseBranch : Code} (hcondition : IsValue condition)
      (hthen : IsAction thenBranch) (helse : IsAction elseBranch) :
    IsAction (.ifElse condition thenBranch elseBranch)
  | procedureCall (n : String) {arguments : List Code} (h : ∀ c ∈ arguments, IsValue c) :
    IsAction (.procedureCall (.text n) arguments)

theorem toTrees_eq_map : ∀ codes : List Code, toTrees codes = codes.map toTree
  | [] => rfl
  | c :: cs => by rw [toTrees, toTrees_eq_map cs, List.map_cons]

end Code

open MiniPascal.Tree

/-! ### The trees of expressions and statements -/

theorem Expr.isTruthy_toTree (e : Expr) : e.toTree.isTruthy = true := by
  cases e <;> rfl

theorem Operand.isTruthy_toTree (o : Operand) : o.toTree.isTruthy = true := by
  cases o with
  | designator place => cases place <;> rfl
  | _ => rfl

theorem Expr.isNull_toTree (e : Expr) : e.toTree.isNull = false := by
  cases e <;> rfl

theorem Operand.isNull_toTree (o : Operand) : o.toTree.isNull = false := by
  cases o with
  | designator place => cases place <;> rfl
  | _ => rfl

theorem generate_factor_inner {value name inner negated : Tree} (h : inner.isTruthy = true) :
    generate (.factor value name inner negated) = generate inner := by
  rw [generate, if_pos h]

theorem generate_arrayAccess (array : Tree) (index : Expr) :
    generate (.arrayAccess array index.toTree) = (do
      let base ← baseName array
      let outer ← generateIndices array
      return .element base (outer ++ [← generate index.toTree])) := by
  cases index <;> rfl

theorem generateIndices_arrayAccess (array : Tree) (index : Expr) :
    generateIndices (.arrayAccess array index.toTree) = (do
      let outer ← generateIndices array
      return outer ++ [← generate index.toTree]) := by
  cases index <;> rfl

/-- A statement as a tree is present. -/
theorem Stmt.isNull_toTree (st : Stmt) : st.toTree.isNull = false := by
  cases st <;> rfl

/-- A part of something, and not a name or a call. -/
def Designator.isSelected : Designator → Bool
  | .element .. | .field .. => true
  | _ => false

/-! ### Code of parts

What is known about the code of the parts of a tree is known about the code of the tree, if the code
of the tree has it from its parts. -/

section Parts

variable {P : Code → Prop}

theorem endsAs_generateAll_cons {Q : Code → Prop} {fails fails' : Bool} {t : Tree} {ts : List Tree}
    (ht : EndsAs fails (generate t) Q) (hts : EndsAs fails' (generateAll ts) (∀ c ∈ ·, Q c)) :
    EndsAs (fails || fails') (generateAll (t :: ts)) (∀ c ∈ ·, Q c) :=
  ht.bind fun _ hc => hts.before fun _ hcs => .pure (List.forall_mem_cons.2 ⟨hc, hcs⟩)

theorem Expr.endsAs_compare {left right : Operand} {operator : String}
    (hleft : EndsAs false (generate left.toTree) P)
    (hright : EndsAs false (generate right.toTree) P)
    (h : ∀ {l r}, P l → P r → P (.compare (.text operator) l r)) :
    EndsAs false (generate (Expr.compare left operator right).toTree) P := by
  rw [Expr.toTree, generate]
  split
  · exact hleft.andThen fun _ hl => hright.andThen fun _ hr => .pure (h hl hr)
  · exact hleft

theorem Operand.endsAs_literal {s : String} (hstring : P (.string s)) (hchar : ∀ n, P (.char n)) :
    EndsAs false (generate (Operand.literal s).toTree) P := by
  obtain ⟨c, hc, h⟩ : ∃ c, literalCode? (.text s) = some c ∧ P c := by
    rw [literalCode?]
    split
    · exact ⟨_, rfl, hchar _⟩
    · exact ⟨_, rfl, hstring⟩
  rw [Operand.toTree, generate, if_neg nofun, if_neg nofun, hc]
  exact .pure h

theorem isTruthy_text {s : String} (h : s ≠ "") : (Tree.text s).isTruthy = true := by
  simpa [isTruthy] using h

theorem Operand.endsAs_name {n : String} (hn : n ≠ "") (h : P (.name (.text n))) :
    EndsAs false (generate (Operand.designator (.name n)).toTree) P := by
  rw [Operand.toTree, generate, if_neg nofun, if_pos (isTruthy_text hn)]
  exact .pure h

theorem Operand.endsAs_binary {left right : Operand} {operator : String}
    (hleft : EndsAs false (generate left.toTree) P)
    (hright : EndsAs false (generate right.toTree) P)
    (h : ∀ {l r}, P l → P r → P (.binary (.text operator) l r)) :
    EndsAs false (generate (Operand.binary left operator right).toTree) P :=
  hleft.andThen fun _ hl => hright.andThen fun _ hr => .pure (h hl hr)

section Designators

variable {base : Designator} {Q : Code → Prop}

theorem Designator.endsAs_element {index : Expr} {N : String → Prop}
    (hname : EndsAs false (baseName base.toTree) N)
    (hbase : EndsAs false (generateIndices base.toTree) (∀ c ∈ ·, P c))
    (hindex : EndsAs false (generate index.toTree) P)
    (h : ∀ {n outer last}, N n → (∀ c ∈ outer, P c) → P last → Q (.element n (outer ++ [last]))) :
    EndsAs false (generate (Designator.element base index).toTree) Q := by
  rw [Designator.toTree, generate_arrayAccess]
  exact hname.andThen fun _ hn => hbase.andThen fun _ houter => hindex.andThen fun _ hlast =>
    .pure (h hn houter hlast)

theorem Designator.endsAs_indices {index : Expr}
    (hbase : EndsAs false (generateIndices base.toTree) (∀ c ∈ ·, P c))
    (hindex : EndsAs false (generate index.toTree) P) :
    EndsAs false (generateIndices (Designator.element base index).toTree) (∀ c ∈ ·, P c) := by
  rw [Designator.toTree, generateIndices_arrayAccess]
  refine hbase.andThen fun _ houter => hindex.andThen fun _ hlast => .pure ?_
  exact List.forall_mem_append.2 ⟨houter, List.forall_mem_singleton.2 hlast⟩

theorem Designator.endsAs_call {arguments : List Expr}
    (harguments : EndsAs false (generateAll (exprTrees arguments)) (∀ c ∈ ·, P c))
    (h : ∀ {codes}, (∀ c ∈ codes, P c) → P (.functionCall base.toTree codes)) :
    EndsAs false (generate (Designator.call base arguments).toTree) P := by
  rw [Designator.toTree, generate]
  split
  · exact harguments.andThen fun _ hcodes => .pure (h hcodes)
  · exact .pure (h (List.forall_mem_nil _))

end Designators

section Statements

variable {A : Code → Prop} {fails : Bool}

/-- What is not selected is assigned to as it stands. -/
theorem Stmt.endsAs_assign {target : Designator} {value : Expr} {T : Code → Prop}
    (hkept : target.isSelected = false → fails = false ∧ T (.name target.toTree))
    (hselected : target.isSelected = true → EndsAs fails (generate target.toTree) T)
    (hvalue : EndsAs false (generate value.toTree) P)
    (h : ∀ {t v}, T t → P v → A (.assign t v)) :
    EndsAs fails (generate (Stmt.assign target value).toTree) A := by
  have hend : ∀ place, T place → EndsAs false
      (do return Code.assign place (← generate value.toTree)) A := fun _ ht =>
    hvalue.andThen fun _ hv => .pure (h ht hv)
  cases target with
  | name | call =>
    obtain ⟨rfl, ht⟩ := hkept rfl
    exact hend _ ht
  | element | field => exact (hselected rfl).before hend

theorem Stmt.endsAs_forLoop {n direction : String} {start stop : Expr} {body : Stmt}
    (hstart : EndsAs false (generate start.toTree) P)
    (hstop : EndsAs false (generate stop.toTree) P) (hbody : EndsAs fails (generate body.toTree) A)
    (h : ∀ {first last inner}, P first → P last → A inner →
      A (.block [.assign (.name (.text n)) first,
        .whileLoop (.compare (.text "<=") (.name (.text n)) last)
          (.block [inner, .assign (.name (.text n))
            (.binary (.text "+") (.name (.text n)) (.integer (.int 1)))])])) :
    EndsAs (Text.toLower direction != "to" || fails)
      (generate (Stmt.forLoop n start direction stop body).toTree) A := by
  refine hstart.andThen fun _ hfirst =>
    EndsAs.andThen (P := (· = Text.toLower direction)) ⟨_, rfl, rfl⟩ ?_
  rintro _ rfl
  split
  next hup =>
    rw [hup, bne_self_eq_false, Bool.false_or]
    exact hstop.andThen fun _ hlast => hbody.before fun _ hinner => .pure (h hfirst hlast hinner)
  next hdown =>
    rw [bne_iff_ne.2 hdown, Bool.true_or]
    exact .error _

theorem Stmt.endsAs_call {n : String} {arguments : List Expr}
    (harguments : EndsAs false (generateAll (exprTrees arguments)) (∀ c ∈ ·, P c))
    (h : ∀ {codes}, (∀ c ∈ codes, P c) → A (.procedureCall (.text n) codes)) :
    EndsAs false (generate (Stmt.call n arguments).toTree) A := by
  rw [Stmt.toTree, generate]
  split
  · exact harguments.andThen fun _ hcodes => .pure (h hcodes)
  · exact .pure (h (List.forall_mem_nil _))

theorem Stmt.endsAs_ifElse {fails' : Bool} {condition : Expr} {thenBranch elseBranch : Stmt}
    (hcondition : EndsAs false (generate condition.toTree) P)
    (hthen : EndsAs fails (generate thenBranch.toTree) A)
    (helse : EndsAs fails' (generate elseBranch.toTree) A)
    (h : ∀ {test yes no}, P test → A yes → A no → A (.ifElse test yes no)) :
    EndsAs (fails || fails') (generate (Stmt.ifElse condition thenBranch elseBranch).toTree) A := by
  refine hcondition.andThen fun _ htest => hthen.bind fun _ hyes => ?_
  rw [elseBranch.isNull_toTree, if_neg nofun]
  exact helse.before fun _ hno => .pure (h htest hyes hno)

end Statements

end Parts

end MiniPascal
