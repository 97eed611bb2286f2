import MiniPascal.Proofs.Analysis.Steps
import MiniPascal.Syntax

/-!
# The Code of Checked Statements

Checking the statements of a body gives the code of each of them, in order, except for those that
are compound statements themselves: these are passed over.

* `checkStatement_toTree`: what a checked statement gives;
* `checkCompound_compoundTree`: what the checked statements of a body give.
-/

namespace MiniPascal

open Check Checking

def Stmt.isCompound : Stmt → Bool
  | .compound _ => true
  | _ => false

theorem Stmt.isTruthy_toTree (s : Stmt) : s.toTree.isTruthy = true := by
  cases s <;> rfl

theorem checkAssign_ensures (target value : Tree) (a : Analysis) :
    (checkAssign target value).Ensures a fun c => (Tree.assign target value).generate = .ok c := by
  have hlast : (generate (.assign target value)).Ensures a fun c =>
      (Tree.assign target value).generate = .ok c := fun c h => (generate_eq_ok.1 h).2
  unfold checkAssign
  split
  · refine .bind fun _ _ => .ite (fun _ => ?_) fun _ => .bind fun _ _ => .bind fun _ _ => ?_
    · exact .refuse_bind
    · refine .ite (fun _ => ?_) fun _ => ?_
      · exact .bind fun _ _ => .bind fun _ _ => hlast
      · exact .bind fun _ _ => hlast
  · refine .bind fun _ _ => .bind fun _ _ => .bind fun _ _ => .ite (fun _ => ?_) fun _ => ?_
    · exact .of_stops (by simp)
    · exact .bind fun _ _ => hlast
  · refine .bind fun _ _ => .bind fun _ _ => .ite (fun _ => ?_) fun _ => ?_
    · exact .of_stops (by simp)
    · exact .bind fun _ _ => hlast
  · exact .refuse_bind

theorem checkProcedureCall_ensures (call : Tree) (a : Analysis) :
    (checkProcedureCall call).Ensures a fun c => call.generate = .ok c := by
  have hlast : (generate call).Ensures a fun c => call.generate = .ok c :=
    fun c h => (generate_eq_ok.1 h).2
  refine .bind fun _ _ => .bind fun _ _ => .ite (fun _ => ?_) fun _ => ?_
  · exact .of_stops (by simp)
  refine .bind fun _ _ => .ite (fun _ => ?_) fun _ => .bind fun paired _ => ?_
  · exact .of_stops (by simp)
  cases paired with
  | inl pairs => exact .bind fun _ _ => hlast
  | inr counts => exact .of_stops (by simp)

/-- What a checked statement gives: its code, unless it is a compound one. -/
def Stmt.Gives (st : Stmt) (c : Option Code) : Prop :=
  if st.isCompound then c = none else ∃ code, c = some code ∧ st.toTree.generate = .ok code

/-- A check that ends with the generation of the code of a statement. -/
theorem ensures_some_generate (t : Tree) (a : Analysis) :
    (do return some (← generate t) : Check (Option Code)).Ensures a fun c =>
      ∃ code, c = some code ∧ t.generate = .ok code :=
  .bind fun code h => .pure ⟨code, rfl, (generate_eq_ok.1 h).2⟩

/-- A checked statement gives its code, unless it is a compound one. -/
theorem checkStatement_ensures (st : Stmt) (a : Analysis) :
    (checkStatement st.toTree).Ensures a st.Gives := by
  cases st with
  | compound ss => exact fun c h => (pure_eq_ok.1 h).symm
  | assign target value =>
    exact .bind fun code h => .pure ⟨code, rfl, checkAssign_ensures _ _ a code h⟩
  | ifThen condition thenBranch =>
    exact .bind fun _ _ => .bind fun _ _ => ensures_some_generate _ a
  | ifElse condition thenBranch elseBranch =>
    refine .bind fun _ _ => .bind fun _ _ => .ite (fun _ => ?_) fun _ => ensures_some_generate _ a
    exact .bind fun _ _ => ensures_some_generate _ a
  | whileLoop condition body | forLoop n start way stop body =>
    exact .bind fun _ _ => .bind fun _ _ => ensures_some_generate _ a
  | call n arguments =>
    exact .bind fun code h => .pure ⟨code, rfl, checkProcedureCall_ensures _ a code h⟩

/-- The statements of a body that are not passed over. -/
def keptStatements (ss : List Stmt) : List Stmt := ss.filter fun st => !st.isCompound

/-- `code` is the code of a body of the given statements, with one piece for each of them. -/
def IsBodyCode (ss : List Stmt) (code : Tree) : Prop :=
  ∃ codes, Tree.generateAll (stmtTrees ss) = .ok codes ∧ code = Code.bodyTree codes

/-- Checked statements give their codes in order, but for the compound ones. -/
theorem checkStatementList_ensures (a : Analysis) (ss : List Stmt) :
    (checkStatementList (stmtTrees ss)).Ensures a fun codes =>
      Tree.generateAll (stmtTrees (keptStatements ss)) = .ok codes := by
  induction ss with
  | nil => exact .pure rfl
  | cons st ss ih =>
    refine .bind fun c hc => .bind fun codes hcodes => .pure ?_
    have hfirst := checkStatement_ensures st a c hc
    have hrest := ih codes hcodes
    rw [Stmt.Gives] at hfirst
    by_cases hst : st.isCompound = true
    · rw [if_pos hst] at hfirst
      rw [hfirst, keptStatements, List.filter_cons_of_neg (by simp [hst])]
      exact hrest
    · rw [if_neg hst] at hfirst
      obtain ⟨code, rfl, hcode⟩ := hfirst
      rw [keptStatements, List.filter_cons_of_pos (by simp [hst]), stmtTrees, Tree.generateAll,
        hcode]
      exact congrArg (fun e : Except GenerateError _ => do return code :: (← e)) hrest

/-- A checked body gives the code of its statements, but for the compound ones. -/
theorem checkCompound_ensures (ss : List Stmt) (a : Analysis) :
    (checkCompound (compoundTree ss)).Ensures a fun codes =>
      IsBodyCode (keptStatements ss) (Code.bodyTree codes) :=
  fun codes h => ⟨codes, checkStatementList_ensures a ss codes h, rfl⟩

/-! ### What is lost -/

theorem length_generateAll : ∀ {ts : List Tree} {codes : List Code},
    Tree.generateAll ts = .ok codes → codes.length = ts.length
  | [], _, h => by
    rw [← Except.ok.inj h]
    rfl
  | t :: ts, _, h => by
    obtain ⟨code, -, h⟩ := Except.bind_eq_ok.1 h
    obtain ⟨codes, hcodes, h⟩ := Except.bind_eq_ok.1 h
    rw [← Except.pure_eq_ok.1 h, List.length_cons, length_generateAll hcodes, List.length_cons]

theorem length_toTrees : ∀ codes : List Code, (Code.toTrees codes).length = codes.length
  | [] => rfl
  | _ :: codes => congrArg (· + 1) (length_toTrees codes)

theorem length_stmtTrees (ss : List Stmt) : (stmtTrees ss).length = ss.length := by
  induction ss with
  | nil => rfl
  | cons _ ss ih => exact congrArg (· + 1) ih

/-- The code of a body tells how many statements it is for. -/
theorem IsBodyCode.length_eq {ss ss' : List Stmt} {code : Tree} (h : IsBodyCode ss code)
    (h' : IsBodyCode ss' code) : ss.length = ss'.length := by
  obtain ⟨codes, hcodes, rfl⟩ := h
  obtain ⟨codes', hcodes', hcode⟩ := h'
  have hsame : Code.toTrees codes = Code.toTrees codes' := by simpa [Code.bodyTree] using hcode
  calc ss.length = codes.length := by rw [length_generateAll hcodes, length_stmtTrees]
    _ = codes'.length := by rw [← length_toTrees, hsame, length_toTrees]
    _ = ss'.length := by rw [length_generateAll hcodes', length_stmtTrees]

/-- The code of a body has one piece for each of its statements if and only if none of these is
passed over. -/
theorem isBodyCode_iff {ss : List Stmt} {code : Tree} (h : IsBodyCode (keptStatements ss) code) :
    IsBodyCode ss code ↔ ∀ st ∈ ss, st.isCompound = false := by
  constructor
  · intro hall st hst
    have hlength := h.length_eq hall
    rw [keptStatements, List.length_filter_eq_length_iff] at hlength
    simpa using hlength st hst
  · intro hnone
    have hkept : keptStatements ss = ss :=
      List.filter_eq_self.2 fun st hst => by simp [hnone st hst]
    rwa [hkept] at h

end MiniPascal
