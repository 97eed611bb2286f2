import MiniPascal.Proofs.Code.Shape
import MiniPascal.Proofs.Parsing.Texts

/-!
# The Texts in Generated Code

Generated code is made of the texts of the program that it comes from, and of the two operators that
a loop over a range is turned into.
-/

namespace MiniPascal

open MiniPascal.Tree

namespace Code

/-- The code of a value whose texts belong to the vocabulary. -/
inductive ValueWithin (V : Vocabulary) : Code → Prop
  | number (n : Nat) : ValueWithin V (.integer (.int n))
  | truth (b : Bool) : ValueWithin V (.integer (.bool b))
  | string {s : String} (h : V.literal s) : ValueWithin V (.string s)
  | char (n : Nat) : ValueWithin V (.char n)
  | name {n : String} (h : V.name n) : ValueWithin V (.name (.text n))
  | element {array : String} (harray : V.name array) {first : Code} {others : List Code}
      (hfirst : ValueWithin V first) (hothers : ∀ c ∈ others, ValueWithin V c) :
    ValueWithin V (.element array (first :: others))
  | field {record : Code} (h : ValueWithin V record) {n : String} (hn : V.name n) :
    ValueWithin V (.field record (.text n))
  | compare {operator : String} (h : V.operator operator) {left right : Code}
      (hleft : ValueWithin V left) (hright : ValueWithin V right) :
    ValueWithin V (.compare (.text operator) left right)
  | binary {operator : String} (h : V.operator operator) {left right : Code}
      (hleft : ValueWithin V left) (hright : ValueWithin V right) :
    ValueWithin V (.binary (.text operator) left right)
  | functionCall {place : Designator} (hplace : place.Within V) {arguments : List Code}
      (h : ∀ c ∈ arguments, ValueWithin V c) : ValueWithin V (.functionCall place.toTree arguments)

/-- Whether the code is that of a name or of something selected from one. -/
def isPlace : Code → Bool
  | .name _ | .element _ _ | .field _ _ => true
  | _ => false

/-- The code of an action whose texts belong to the vocabulary. -/
inductive ActionWithin (V : Vocabulary) : Code → Prop
  | assign {target value : Code} (htarget : ValueWithin V target) (hplace : target.isPlace = true)
      (hvalue : ValueWithin V value) : ActionWithin V (.assign target value)
  | block {statements : List Code} (h : ∀ c ∈ statements, ActionWithin V c) :
    ActionWithin V (.block statements)
  | whileLoop {condition body : Code} (hcondition : ValueWithin V condition)
      (hbody : ActionWithin V body) : ActionWithin V (.whileLoop condition body)
  | ifThen {condition thenBranch : Code} (hcondition : ValueWithin V condition)
      (hthen : ActionWithin V thenBranch) : ActionWithin V (.ifElse condition thenBranch .nothing)
  | ifElse {condition thenBranch elseBranch : Code} (hcondition : ValueWithin V condition)
      (hthen : ActionWithin V thenBranch) (helse : ActionWithin V elseBranch) :
    ActionWithin V (.ifElse condition thenBranch elseBranch)
  | procedureCall (n : String) {arguments : List Code} (h : ∀ c ∈ arguments, ValueWithin V c) :
    ActionWithin V (.procedureCall (.text n) arguments)

variable {V : Vocabulary}

theorem ValueWithin.isValue {c : Code} (h : c.ValueWithin V) : c.IsValue := by
  induction h with
  | number n => exact .number n
  | truth b => exact .truth b
  | string => exact .string _
  | char n => exact .char n
  | name => exact .name _
  | element _ _ _ hfirst hothers => exact .element _ hfirst hothers
  | field _ _ hrecord => exact .field hrecord _
  | compare _ _ _ hleft hright => exact .compare _ hleft hright
  | binary _ _ _ hleft hright => exact .binary _ hleft hright
  | functionCall _ _ harguments => exact .functionCall _ harguments

end Code

variable {V : Vocabulary}

/-! ### Expressions -/

/-- The name that a name with indices starts at belongs to the vocabulary. -/
theorem Designator.baseName_within : ∀ {d : Designator}, d.IsElement → d.Within V →
    EndsAs false (baseName d.toTree) V.name
  | .name n, _, h => ⟨n, rfl, h⟩
  | .element base _, hbase, h => baseName_within (d := base) hbase h.1

theorem Code.ValueWithin.append {array : String} (harray : V.name array) {outer : List Code}
    {last : Code} (houter : ∀ c ∈ outer, ValueWithin V c) (hlast : ValueWithin V last) :
    ValueWithin V (.element array (outer ++ [last])) := by
  cases outer with
  | nil => exact .element harray hlast (List.forall_mem_nil _)
  | cons first others =>
    rw [List.forall_mem_cons] at houter
    exact .element harray houter.1
      (List.forall_mem_append.2 ⟨houter.2, List.forall_mem_singleton.2 hlast⟩)

/-- A field is selected somewhere in the designator. -/
def Designator.hasField : Designator → Bool
  | .field .. => true
  | .element base _ => base.hasField
  | _ => false

/-- An index is applied after a field has been selected. -/
def Designator.indexesField : Designator → Bool
  | .element base _ => base.hasField
  | .field base _ => base.indexesField
  | _ => false

theorem Designator.not_succeeds_baseName : ∀ {d : Designator}, d.hasField = true →
    ¬Succeeds (baseName d.toTree)
  | .field .., _ => not_succeeds_error _
  | .element base _, h => not_succeeds_baseName (d := base) h

/-- A name with indices is one that can be assigned to in which no field is selected. -/
theorem Designator.isElement_iff {d : Designator} :
    d.IsElement ↔ d.IsTarget ∧ d.hasField = false := by
  cases d with
  | name => exact iff_of_true trivial ⟨trivial, rfl⟩
  | element base => exact isElement_iff (d := base)
  | field => exact iff_of_false id fun h => Bool.false_ne_true h.2.symm
  | call => exact iff_of_false id And.left

theorem Designator.IsValue.isTarget {place : Designator} (h : place.IsValue)
    (hselected : place.isSelected = true) : place.IsTarget ∧ place.indexesField = false := by
  cases place with
  | element => exact Designator.isElement_iff.1 h
  | field base =>
    obtain ⟨htarget, hfield⟩ := Designator.isElement_iff.1 h
    cases base with
    | element => exact ⟨htarget, hfield⟩
    | field => exact absurd hfield.symm Bool.false_ne_true
    | _ => exact ⟨htarget, rfl⟩
  | _ => exact absurd hselected Bool.false_ne_true

mutual

theorem Expr.generate_within (hempty : ¬V.name "") : ∀ {e : Expr}, e.Within V →
    EndsAs false (generate e.toTree) (Code.ValueWithin V)
  | .operand value, he => Operand.generate_within hempty (o := value) he
  | .compare _ _ _, ⟨hleft, hoperator, hright⟩ =>
    Expr.endsAs_compare (Operand.generate_within hempty hleft)
      (Operand.generate_within hempty hright) (.compare hoperator)

theorem Operand.generate_within (hempty : ¬V.name "") : ∀ {o : Operand}, o.Within V →
    EndsAs false (generate o.toTree) (Code.ValueWithin V)
  | .number n, _ => ⟨_, rfl, .number n⟩
  | .literal _, hs => Operand.endsAs_literal (.string hs) .char
  | .truth b, _ => ⟨_, rfl, .truth b⟩
  | .designator (.name _), ⟨_, hn⟩ =>
    Operand.endsAs_name (fun h => hempty (h ▸ hn)) (.name hn)
  | .designator (.element _ _), ⟨hvalue, ho⟩ | .designator (.field _ _), ⟨hvalue, ho⟩ => by
    obtain ⟨htarget, hfield⟩ := hvalue.isTarget rfl
    exact (hfield ▸ Designator.generate_within hempty ho htarget rfl).imp fun _ h => h.1
  | .designator (.call _ _), ⟨_, hbase, harguments⟩ =>
    Designator.endsAs_call (exprs_generate_within hempty harguments) (.functionCall hbase)
  | .group inner, ho => by
    rw [Operand.toTree, generate_factor_inner inner.isTruthy_toTree]
    exact Expr.generate_within hempty ho
  | .negation inner, ⟨_, ho⟩ => by
    rw [Operand.toTree, generate_factor_inner inner.isTruthy_toTree]
    exact Operand.generate_within hempty ho
  | .binary _ _ _, ⟨hleft, hoperator, _, hright⟩ =>
    Operand.endsAs_binary (Operand.generate_within hempty hleft)
      (Operand.generate_within hempty hright) (.binary hoperator)

/-- What is selected has the code of an element or of a field, unless an index is applied after a
field. -/
theorem Designator.generate_within (hempty : ¬V.name "") : ∀ {place : Designator},
    place.Within V → place.IsTarget → place.isSelected = true →
      EndsAs place.indexesField (generate place.toTree) fun c => c.ValueWithin V ∧ c.isPlace = true
  | .element base index, ⟨hbase, hindex⟩, htarget, _ => by
    rw [Designator.indexesField]
    cases hfield : base.hasField with
    | true =>
      refine fun h => Designator.not_succeeds_baseName hfield ?_
      rw [Designator.toTree, generate_arrayAccess] at h
      exact (succeeds_bind.1 h).imp fun _ h => h.1
    | false =>
      have helement := Designator.isElement_iff.2 ⟨htarget, hfield⟩
      exact Designator.endsAs_element (Designator.baseName_within helement hbase)
        (Designator.indices_within hempty hbase) (Expr.generate_within hempty hindex)
        fun hn houter hlast => ⟨.append hn houter hlast, rfl⟩
  | .field (.name _) _, ⟨hbase, hn⟩, _, _ => ⟨_, rfl, .field (.name hbase) hn, rfl⟩
  | .field (.element _ _) _, ⟨hbase, hn⟩, htarget, _
  | .field (.field _ _) _, ⟨hbase, hn⟩, htarget, _ =>
    (Designator.generate_within hempty hbase htarget rfl).before fun _ hc =>
      .pure ⟨.field hc.1 hn, rfl⟩

theorem Designator.indices_within (hempty : ¬V.name "") : ∀ {place : Designator}, place.Within V →
    EndsAs false (generateIndices place.toTree) (∀ c ∈ ·, c.ValueWithin V)
  | .element _ _, ⟨hbase, hindex⟩ =>
    Designator.endsAs_indices (Designator.indices_within hempty hbase)
      (Expr.generate_within hempty hindex)
  | .name _, _ | .field _ _, _ | .call _ _, _ => ⟨[], rfl, List.forall_mem_nil _⟩

theorem exprs_generate_within (hempty : ¬V.name "") : ∀ {es : List Expr}, exprsWithin V es →
    EndsAs false (generateAll (exprTrees es)) (∀ c ∈ ·, c.ValueWithin V)
  | [], _ => ⟨[], rfl, List.forall_mem_nil _⟩
  | _ :: _, ⟨he, hes⟩ =>
    endsAs_generateAll_cons (Expr.generate_within hempty he) (exprs_generate_within hempty hes)

end

/-! ### Statements -/

mutual

/-- The statement has no code, for a loop in it that does not count upward, or for an assignment to
an element of a field. -/
def Stmt.lacksCode : Stmt → Bool
  | .compound ss => stmtsLackCode ss
  | .assign target _ => target.indexesField
  | .ifThen _ thenBranch => thenBranch.lacksCode
  | .ifElse _ thenBranch elseBranch => thenBranch.lacksCode || elseBranch.lacksCode
  | .whileLoop _ body => body.lacksCode
  | .forLoop _ _ direction _ body => Text.toLower direction != "to" || body.lacksCode
  | .call .. => false

def stmtsLackCode : List Stmt → Bool
  | [] => false
  | st :: ss => st.lacksCode || stmtsLackCode ss

end

/-- A loop over a range has the code of a loop with a condition, before which the first value is
assigned and in which the next one is. -/
theorem Code.ActionWithin.countingLoop (hle : V.operator "<=") (hplus : V.operator "+") {n : String}
    (hn : V.name n) {first last body : Code} (hfirst : first.ValueWithin V)
    (hlast : last.ValueWithin V) (hbody : body.ActionWithin V) :
    (Code.block [.assign (.name (.text n)) first,
      .whileLoop (.compare (.text "<=") (.name (.text n)) last)
        (.block [body, .assign (.name (.text n))
          (.binary (.text "+") (.name (.text n)) (.integer (.int 1)))])]).ActionWithin V := by
  have hname : (Code.name (.text n)).ValueWithin V := .name hn
  have htest := Code.ValueWithin.compare hle hname hlast
  have hstart := Code.ActionWithin.assign hname rfl hfirst
  have hnext := Code.ActionWithin.assign hname rfl (.binary hplus hname (.number 1))
  have hstep := Code.ActionWithin.block
    (List.forall_mem_cons.2 ⟨hbody, List.forall_mem_singleton.2 hnext⟩)
  have hloop := Code.ActionWithin.whileLoop htest hstep
  exact .block (List.forall_mem_cons.2 ⟨hstart, List.forall_mem_singleton.2 hloop⟩)

/-- A vocabulary that code is written in: no name is empty, and it has the signs that loops over a
range are turned into. -/
structure Vocabulary.Codes (V : Vocabulary) : Prop where
  empty : ¬V.name ""
  signs : ∀ sign ∈ ["<=", "+"], V.operator sign

mutual

theorem Stmt.generate_within (hV : V.Codes) : ∀ {st : Stmt}, st.Within V →
    EndsAs st.lacksCode (generate st.toTree) (Code.ActionWithin V)
  | .compound _, hss => (stmts_generate_within hV hss).before fun _ hcodes => .pure (.block hcodes)
  | .assign target value, ⟨htarget, hcall, hvalue⟩ => by
    refine Stmt.endsAs_assign ?_ (Designator.generate_within hV.empty htarget hcall)
      (Expr.generate_within hV.empty hvalue) fun ht hv => .assign ht.1 ht.2 hv
    cases target with
    | name => exact fun _ => ⟨rfl, .name htarget, rfl⟩
    | call => exact hcall.elim
    | _ => exact nofun
  | .ifThen _ _, ⟨hcondition, hthen⟩ =>
    (Expr.generate_within hV.empty hcondition).andThen fun _ htest =>
      (Stmt.generate_within hV hthen).before fun _ hyes => .pure (.ifThen htest hyes)
  | .ifElse _ _ _, ⟨hcondition, hthen, helse⟩ =>
    Stmt.endsAs_ifElse (Expr.generate_within hV.empty hcondition) (Stmt.generate_within hV hthen)
      (Stmt.generate_within hV helse) .ifElse
  | .whileLoop _ _, ⟨hcondition, hbody⟩ =>
    (Expr.generate_within hV.empty hcondition).andThen fun _ htest =>
      (Stmt.generate_within hV hbody).before fun _ hinner => .pure (.whileLoop htest hinner)
  | .forLoop _ _ _ _ _, ⟨hn, hstart, hstop, hbody⟩ =>
    Stmt.endsAs_forLoop (Expr.generate_within hV.empty hstart)
      (Expr.generate_within hV.empty hstop) (Stmt.generate_within hV hbody)
      (.countingLoop (hV.signs "<=" (by decide)) (hV.signs "+" (by decide)) hn)
  | .call n _, ⟨_, harguments⟩ =>
    Stmt.endsAs_call (exprs_generate_within hV.empty harguments) (.procedureCall n)

theorem stmts_generate_within (hV : V.Codes) : ∀ {ss : List Stmt}, stmtsWithin V ss →
    EndsAs (stmtsLackCode ss) (generateAll (stmtTrees ss)) (∀ c ∈ ·, c.ActionWithin V)
  | [], _ => ⟨[], rfl, List.forall_mem_nil _⟩
  | _ :: _, ⟨hst, hss⟩ =>
    endsAs_generateAll_cons (Stmt.generate_within hV hst) (stmts_generate_within hV hss)

end

end MiniPascal
