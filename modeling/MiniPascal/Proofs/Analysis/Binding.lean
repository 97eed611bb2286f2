import MiniPascal.Proofs.Safety.Expressions

/-!
# Names in Accepted Expressions

An expression that is accepted uses no name that is not known: every variable, array and record in
it, also those inside its indices, is bound in the scope in which the expression is checked or
around it. No assumption is made on how the scopes came about.

* `Expr.binds_of_accepts`: the names in an accepted expression without calls are bound.
-/

namespace MiniPascal

/-- A name is bound if something is known about it in the current scope or around it. -/
def Scopes.Binds (s : Scopes) (n : String) : Prop := ∃ entry, s.lookup n = some entry

mutual

/-- The names in an expression. That of a field belongs to its record and is not among them. -/
def Expr.names : Expr → List String
  | .operand value => value.names
  | .compare left _ right => left.names ++ right.names

def Operand.names : Operand → List String
  | .number _ | .literal _ | .truth _ => []
  | .designator place => place.names
  | .group inner | .negation inner => inner.names
  | .binary left _ right => left.names ++ right.names

def Designator.names : Designator → List String
  | .name n => [n]
  | .element base index => base.names ++ index.names
  | .field base _ => base.names
  | .call base arguments => base.names ++ exprNames arguments

def exprNames : List Expr → List String
  | [] => []
  | e :: es => e.names ++ exprNames es

end

mutual

/-- Whether nothing is called in an expression, not even in an index. -/
def Expr.isCallFree : Expr → Bool
  | .operand value => value.isCallFree
  | .compare left _ right => left.isCallFree && right.isCallFree

def Operand.isCallFree : Operand → Bool
  | .number _ | .literal _ | .truth _ => true
  | .designator place => place.isCallFree
  | .group inner | .negation inner => inner.isCallFree
  | .binary left _ right => left.isCallFree && right.isCallFree

def Designator.isCallFree : Designator → Bool
  | .name _ => true
  | .element base index => base.isCallFree && index.isCallFree
  | .field base _ => base.isCallFree
  | .call _ _ => false

end

theorem Tree.isTruthy_text {n : String} (h : n ≠ "") : (Tree.text n).isTruthy = true := by
  simpa [Tree.isTruthy] using h

theorem Designator.accessIndices_element (base : Designator) (index : Expr) :
    (Designator.element base index).toTree.accessIndices =
      base.toTree.accessIndices ++ [index.toTree] := by
  cases index <;> rfl

theorem Designator.exists_root? : ∀ {d : Designator}, d.IsElement → ∃ n, d.root? = some n
  | .name n, _ => ⟨n, rfl⟩
  | .element base _, h => Designator.exists_root? (d := base) h
  | .field _ _, h | .call _ _, h => h.elim

namespace Checking

open Check Typing

variable {a : Analysis}

/-! ### Names that are looked up -/

/-- What is not the absent value was found. -/
theorem binds_of_lookup {n : String} {symbol : Tree} (h : lookup (.text n) a = .ok symbol)
    (htruthy : ¬(!symbol.isTruthy) = true) : a.scopes.Binds n := by
  rw [lookup_eq_ok, Scopes.lookupTree] at h
  cases hentry : a.scopes.lookupIn a.scopes.current n with
  | none =>
    rw [hentry] at h
    obtain rfl := Except.ok.inj h
    exact absurd rfl htruthy
  | some entry => exact ⟨entry, hentry⟩

theorem checkVariable_binds (expected : Tree) (n : String) :
    (checkVariable expected (.text n)).Ensures a fun _ => a.scopes.Binds n := by
  refine .bind fun symbol hsymbol => .ite (fun _ => ?_) fun htruthy _ _ => ?_
  · exact .of_stops (by simp)
  · exact binds_of_lookup hsymbol htruthy

theorem variableField_binds (n : String) (field : Tree) :
    (variableField n field).Ensures a fun _ => a.scopes.Binds n := by
  refine .bind fun symbol hsymbol => .ite (fun _ => ?_) fun htruthy _ _ => ?_
  · exact .refuse_bind
  · exact binds_of_lookup hsymbol htruthy

theorem arrayOf_binds {access : Tree} {n : String} (hbase : access.arrayBase = .text n) :
    (arrayOf access).Ensures a fun _ => a.scopes.Binds n := by
  refine .bind fun flat hflat => .bind fun symbol hsymbol => ?_
  refine .ite (fun _ => ?_) fun htruthy _ _ => ?_
  · exact .refuse_bind
  · obtain rfl := flatAccess_ensures hbase flat hflat
    exact binds_of_lookup hsymbol htruthy

theorem accessDimensions_binds {access : Tree} {n : String} (hbase : access.arrayBase = .text n) :
    (accessDimensions access).Ensures a fun dims =>
      a.scopes.Binds n ∧ access.accessIndices.length = dims.length := by
  refine .bind fun flat hflat => .bind fun found hfound => ?_
  obtain rfl := flatAccess_ensures hbase flat hflat
  obtain ⟨name, info⟩ := found
  refine .bind fun _ _ => .bind fun dims _ => .ite (fun _ => ?_) fun hlength => .pure ⟨?_, ?_⟩
  · exact .refuse_bind
  · exact arrayOf_binds hbase _ hfound
  · exact not_not.1 hlength

/-! ### Indices -/

/-- An index that is compared with a dimension is evaluated, and the dimension is used up. -/
theorem checkBounds_ensures {dimension : Tree} {dims : List Tree} {position : Nat}
    {value : Check (Option Tree)} :
    (checkBounds (dimension :: dims) position value).Ensures a fun rest =>
      rest.1 = dims ∧ ∃ v, value a = .ok v := by
  refine .bind fun bounds _ => .bind fun v hv => ?_
  cases v with
  | none => exact .pure ⟨rfl, _, hv⟩
  | some index =>
    refine .bind fun inside _ => .ite (fun _ => ?_) fun _ => .pure ⟨rfl, _, hv⟩
    exact .of_stops (by simp)

theorem indexValue_ensures {index : Expr} {check : Check Code} :
    (indexValue index.toTree check).Ensures a fun _ => ∃ code, check a = .ok code := by
  have hchecked : (do (← check).toTree.literalSum? : Check (Option Tree)).Ensures a
      fun _ => ∃ code, check a = .ok code := .bind fun code hcode _ _ => ⟨code, hcode⟩
  cases index <;> exact hchecked

end Checking

open Check Checking

/-- As long as there are dimensions for all indices of a designator, their check uses up one for
each of them and reaches all names in them. -/
def Designator.BindsIndices (a : Analysis) (d : Designator) : Prop :=
  ∀ (dims : List Tree) (position : Nat), d.toTree.accessIndices.length ≤ dims.length →
    (checkIndices dims position d.toTree).Ensures a fun rest =>
      rest.1.length + d.toTree.accessIndices.length = dims.length ∧
        ((∀ n, d.root? = some n → a.scopes.Binds n) → ∀ n ∈ d.names, a.scopes.Binds n)

/-- An expression whose names are bound wherever it is accepted, whatever type is expected. -/
def Tree.BindsNames (a : Analysis) (t : Tree) (names : List String) : Prop :=
  ∀ expected : Tree, (checkExpression expected t).Ensures a fun _ => ∀ n ∈ names, a.scopes.Binds n

namespace Checking

variable {a : Analysis}

theorem bindsIndices_name (n : String) : (Designator.name n).BindsIndices a := by
  intro dims position _
  refine .pure ⟨rfl, fun hroot m hm => ?_⟩
  obtain rfl := List.mem_singleton.1 hm
  exact hroot m rfl

variable {base : Designator} {index : Expr}

/-- The next index finds a dimension, since there is one for each. -/
theorem bindsIndices_element (hbase : base.BindsIndices a)
    (hindex : index.toTree.BindsNames a index.names) :
    (Designator.element base index).BindsIndices a := by
  intro dims position hlength
  rw [Designator.accessIndices_element, List.length_append, List.length_singleton] at hlength ⊢
  rw [checkIndices_element]
  refine .bind fun found hfound => ?_
  obtain ⟨rest, next⟩ := found
  obtain ⟨hcount, hnames⟩ := hbase dims position (by omega) _ hfound
  cases rest with
  | nil => exact absurd hcount (by simp only [List.length_nil]; omega)
  | cons dimension rest =>
    rw [List.length_cons] at hcount
    refine checkBounds_ensures.mono fun remaining hremaining => ?_
    obtain ⟨hrest, value, hvalue⟩ := hremaining
    obtain ⟨code, hcode⟩ := indexValue_ensures value hvalue
    refine ⟨by rw [hrest]; omega, fun hroot n hn => ?_⟩
    rcases List.mem_append.1 hn with hn | hn
    · exact hnames hroot n hn
    · exact hindex _ code hcode n hn

/-- An access is only accepted with as many indices as its array has dimensions. -/
theorem binds_of_checkIndices (helement : (Designator.element base index).IsElement)
    (hindices : (Designator.element base index).BindsIndices a) {dims : List Tree}
    (hdims : accessDimensions (Designator.element base index).toTree a = .ok dims)
    {found remaining : List Tree × Nat} (hfound : checkIndices dims 0 base.toTree a = .ok found)
    (hremaining : checkBounds found.1 found.2 (indexValue index.toTree
      (checkExpression (.text "integer") index.toTree)) a = .ok remaining) :
    ∀ n ∈ (Designator.element base index).names, a.scopes.Binds n := by
  obtain ⟨root, hroot⟩ := Designator.exists_root? helement
  obtain ⟨hbinds, hlength⟩ := accessDimensions_binds (Designator.arrayBase_toTree hroot) dims hdims
  have hchecked : checkIndices dims 0 (Designator.element base index).toTree a = .ok remaining := by
    rw [checkIndices_element]
    exact bind_eq_ok.2 ⟨found, hfound, hremaining⟩
  refine (hindices dims 0 hlength.le remaining hchecked).2 fun n hn => ?_
  obtain rfl := Option.some.inj (hroot.symm.trans hn)
  exact hbinds

/-! ### Expressions -/

theorem bindsNames_literal (value : Tree) : value.BindsNames a [] :=
  fun _ _ _ _ hn => absurd hn List.not_mem_nil

theorem bindsNames_name {n : String} (hn : n ≠ "") :
    (Operand.designator (.name n)).toTree.BindsNames a [n] := by
  intro expected
  refine .bind fun _ _ => .ite (fun htrue => absurd htrue Bool.false_ne_true) fun _ => ?_
  refine .ite (fun _ => .bind fun u hu _ _ m hm => ?_) fun hfalse => ?_
  · obtain rfl := List.mem_singleton.1 hm
    exact checkVariable_binds expected m u hu
  · exact absurd (Tree.isTruthy_text hn) hfalse

theorem bindsNames_element (helement : (Designator.element base index).IsElement)
    (hindices : (Designator.element base index).BindsIndices a) :
    (Designator.element base index).toTree.BindsNames a (Designator.element base index).names := by
  intro expected
  rw [checkExpression_element]
  refine .bind fun dims hdims => .bind fun found hfound => .bind fun remaining hremaining _ _ => ?_
  exact binds_of_checkIndices helement hindices hdims hfound hremaining

/-- The record of a field is bound. -/
theorem checkFieldAccess_binds (helement : base.IsElement) (hindices : base.BindsIndices a)
    (expected field : Tree) :
    (checkFieldAccess expected field base.toTree).Ensures a fun _ =>
      ∀ n ∈ base.names, a.scopes.Binds n := by
  cases base with
  | name n =>
    refine .bind fun type htype _ _ m hm => ?_
    obtain rfl := List.mem_singleton.1 hm
    exact variableField_binds m field type htype
  | element base index =>
    rw [checkFieldAccess_element]
    refine .bind fun dims hdims => .bind fun found hfound => ?_
    refine .bind fun remaining hremaining _ _ => ?_
    exact binds_of_checkIndices helement hindices hdims hfound hremaining
  | field base f | call base arguments => exact helement.elim

/-- An operand of a chain is checked, and then the rest of the chain. A field is compared with the
type that is expected of the chain. -/
theorem checkTerms_binds {o : Operand} (hcall : o.isCallFree = true)
    (hplain : o.toTree.BindsNames a o.names)
    (hfield : ∀ base f, o = .designator (.field base f) → base.IsElement ∧ base.BindsIndices a)
    (expected : Tree) (rest : List Tree) :
    (checkTerms expected (o.toTree :: rest)).Ensures a fun _ =>
      (∀ n ∈ o.names, a.scopes.Binds n) ∧ ∃ u, checkTerms expected rest a = .ok u := by
  have hfirst : (checkExpression expected o.toTree >>= fun _ => checkTerms expected rest).Ensures a
      fun _ => (∀ n ∈ o.names, a.scopes.Binds n) ∧ ∃ u, checkTerms expected rest a = .ok u :=
    .bind fun code hcode u hu => ⟨hplain expected code hcode, u, hu⟩
  cases o with
  | designator place =>
    cases place with
    | name n | element base index => exact hfirst
    | field base f =>
      obtain ⟨helement, hindices⟩ := hfield base f rfl
      refine .bind fun code hcode u hu => ⟨?_, u, hu⟩
      exact checkFieldAccess_binds helement hindices expected (.text f) code hcode
    | call base arguments => exact absurd hcall Bool.false_ne_true
  | _ => exact hfirst

mutual

/-- The check of an expression reaches all of its parts. The statements follow the syntax, and
the indices of an access are expressions again. -/
theorem bindsNames_expr : ∀ {e : Expr}, e.Within .plain → e.isCallFree = true →
    e.toTree.BindsNames a e.names
  | .operand o, hformed, hcall => fun expected =>
    .ite (fun htrue => absurd htrue Bool.false_ne_true) fun _ =>
      bindsNames_operand (o := o) hformed hcall expected
  | .compare left operator right, hformed, hcall => by
    obtain ⟨hleft, hoperator, hright⟩ := hformed
    obtain ⟨hcallLeft, hcallRight⟩ := Bool.and_eq_true_iff.1 hcall
    refine fun expected => .ite (fun _ => ?_) fun hfalse => ?_
    · -- both sides are checked once their types have been compared
      refine .bind fun _ _ => .bind fun _ _ => .ite (fun _ => ?_) fun _ => ?_
      · exact .of_stops (by simp)
      · refine .bind fun code hcode => .bind fun code' hcode' _ _ n hn => ?_
        rcases List.mem_append.1 hn with hn | hn
        · exact bindsNames_operand hleft hcallLeft _ code hcode n hn
        · exact bindsNames_operand hright hcallRight _ code' hcode' n hn
    · exact absurd (Tree.isTruthy_text hoperator.1) hfalse
termination_by structural e => e

theorem bindsNames_operand : ∀ {o : Operand}, o.Within .plain → o.isCallFree = true →
    o.toTree.BindsNames a o.names
  | .number _, _, _ | .literal _, _, _ | .truth _, _, _ => bindsNames_literal _
  | .designator (.name _), hformed, _ => bindsNames_name hformed.2.1
  | .designator (.element base index), hformed, hcall => by
    obtain ⟨helement, hbase, hindex⟩ := hformed
    obtain ⟨hcallBase, hcallIndex⟩ := Bool.and_eq_true_iff.1 hcall
    refine bindsNames_element helement (bindsIndices_element ?_ ?_)
    · exact bindsIndices_designator helement hbase hcallBase
    · exact bindsNames_expr hindex hcallIndex
  | .designator (.field base f), hformed, hcall => fun _ =>
    checkFieldAccess_binds hformed.1
      (bindsIndices_designator (d := base) hformed.1 hformed.2.1 hcall) .null (.text f)
  | .designator (.call _ _), _, hcall => absurd hcall Bool.false_ne_true
  | .group inner, hformed, hcall => by
    have hinner := bindsNames_expr (e := inner) hformed hcall
    refine fun expected => .bind fun _ _ => .ite (fun _ => ?_) fun hfalse => ?_
    · cases inner <;> exact hinner expected
    · exact absurd inner.isTruthy_toTree hfalse
  | .negation inner, hformed, hcall => by
    have hinner := bindsNames_operand (o := inner) hformed.2 hcall
    refine fun expected => .bind fun outline houtline => .ite (fun _ => ?_) fun hfalse => ?_
    · cases inner with
      | designator place =>
        cases place with
        | name n => exact hinner expected
        | _ => cases fault_eq_ok.1 houtline
      | binary left operator right => exact hformed.1.elim
      | _ => exact hinner expected
    · exact absurd inner.isTruthy_toTree hfalse
  | .binary left operator right, hformed, hcall => by
    obtain ⟨hleft, -, -, hright⟩ := hformed
    obtain ⟨hcallLeft, hcallRight⟩ := Bool.and_eq_true_iff.1 hcall
    intro expected
    have hlast : (checkTerms expected [right.toTree]).Ensures a fun _ =>
        ∀ n ∈ right.names, a.scopes.Binds n :=
      (checkTerms_binds hcallRight (bindsNames_operand hright hcallRight)
        (bindsIndices_fieldOperand hright hcallRight) _ _).mono fun _ h => h.1
    -- the operator stands in the chain as a term of its own
    have hlater : (checkTerms expected [.text operator, right.toTree]).Ensures a fun _ =>
        ∀ n ∈ right.names, a.scopes.Binds n := .bind fun _ _ => hlast
    refine .bind fun _ _ => .bind fun u hu _ _ n hn => ?_
    obtain ⟨hnames, u, hu⟩ := checkTerms_binds hcallLeft (bindsNames_operand hleft hcallLeft)
      (bindsIndices_fieldOperand hleft hcallLeft) expected _ u hu
    exact (List.mem_append.1 hn).elim (hnames n) (hlater u hu n)
termination_by structural o => o

theorem bindsIndices_fieldOperand : ∀ {o : Operand}, o.Within .plain → o.isCallFree = true →
    ∀ base f, o = .designator (.field base f) → base.IsElement ∧ base.BindsIndices a
  | .designator (.field base _), hformed, hcall, _, _, rfl =>
    ⟨hformed.1, bindsIndices_designator (d := base) hformed.1 hformed.2.1 hcall⟩
termination_by structural o => o

theorem bindsIndices_designator : ∀ {d : Designator}, d.IsElement → d.Within .plain →
    d.isCallFree = true → d.BindsIndices a
  | .name n, _, _, _ => bindsIndices_name n
  | .element base index, helement, hformed, hcall => by
    obtain ⟨hcallBase, hcallIndex⟩ := Bool.and_eq_true_iff.1 hcall
    exact bindsIndices_element (bindsIndices_designator helement hformed.1 hcallBase)
      (bindsNames_expr hformed.2 hcallIndex)
  | .field _ _, helement, _, _ | .call _ _, helement, _, _ => helement.elim
termination_by structural d => d

end

end Checking

/-- Whatever is known in the scopes and whatever type is expected, each name that occurs in an
expression without calls is bound if the expression is accepted. -/
theorem Expr.binds_of_accepts {text : String} {tokens rest : List Token} {start fuel : Nat}
    {e : Expr} (htokens : Token.lex text = .ok tokens)
    (hparse : (Grammar.expression fuel).run (tokens.drop start) = .ok (e, rest))
    (hcall : e.isCallFree = true) {a : Analysis} {expected : Tree} {code : Code}
    (haccept : checkExpression expected e.toTree a = .ok code) :
    ∀ n ∈ e.names, a.scopes.Binds n :=
  bindsNames_expr (Expr.within_of_run htokens hparse) hcall expected code haccept

/-- A program with a table of records, a record and a procedure with a parameter. -/
def recordTable : String :=
  "program p; type t = record x: integer; end; var m: array[1..2, 1..3] of t; r: t; " ++
    "procedure q(i: integer); begin end; begin end."

/-- What is known in the procedure of this program. -/
def recordTableInside : Analysis :=
  let scopes := ((Pipeline.analyze recordTable).toOption.getD .start).scopes
  { scopes := { scopes with current := 1 }, code := none }

/-- All names in a comparison of fields are bound, also those in the indices. -/
theorem Expr.binds_of_accepts_recordTable : ∃ (e : Expr) (code : Code),
    e.names = ["m", "i", "i", "r"] ∧
      checkExpression (.text "boolean") e.toTree recordTableInside = .ok code ∧
      ∀ n ∈ e.names, recordTableInside.scopes.Binds n := by
  obtain ⟨tokens, e, rest, htokens, hparse, htest⟩ := Expr.exists_of_lexChars
    (s := "m[i][i + 1].x < r.x") String.toList_ofList
    (fun e => e.names = ["m", "i", "i", "r"] && (e.isCallFree &&
      (checkExpression (.text "boolean") e.toTree recordTableInside).toOption.any fun _ => true))
    (by
      rw [recordTableInside, Pipeline.analyze_eq_analyzeChars (s := recordTable)
        (Text.toList_append_eq String.toList_ofList String.toList_ofList)]
      decide +kernel)
  obtain ⟨hnames, htest⟩ := Bool.and_eq_true_iff.1 htest
  obtain ⟨hcall, haccept⟩ := Bool.and_eq_true_iff.1 htest
  obtain ⟨code, hcode, -⟩ := Except.exists_of_any haccept
  exact ⟨e, code, of_decide_eq_true hnames, hcode,
    Expr.binds_of_accepts htokens hparse hcall hcode⟩

end MiniPascal
