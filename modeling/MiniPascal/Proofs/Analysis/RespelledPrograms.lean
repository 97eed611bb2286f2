import MiniPascal.Proofs.Analysis.Respelling

/-!
# Programs in Other Words

Programs that differ in words are analysed side by side: statements, declarations, routines and
blocks. The analyses stay alike all the way, and the second one goes on as long as the first one
does, unless it comes to a word that is asked for as it is written and has been replaced.

* `Block.Reworded.analyzes`, `Program.Reworded.analyzes`: the analyses of blocks and programs.
-/

namespace MiniPascal

open Check Typing Checking

variable {R : String → String → Prop} {K : Prop} {a a' : Analysis}

/-! ### Statements -/

theorem Expr.Reworded.soleName_eq {e e' : Expr} (he : e.Reworded R e') :
    e.toTree.soleName = e'.toTree.soleName := by
  have hoperand : ∀ {o o' : Operand}, o.Reworded R o' → o.toTree.soleName = o'.toTree.soleName := by
    intro o o' ho
    cases ho with
    | designator hd => cases hd <;> rfl
    | _ => rfl
  cases he with
  | operand ho => exact hoperand ho
  | compare hl _ _ => exact hoperand hl

section

variable (h : Beside R K a a') {e e' : Expr}

include h

theorem Expr.Reworded.checkArrayValue (he : e.Reworded R e') (info : Tree) :
    Check.Tracks K Eq (checkArrayValue info e.toTree) (checkArrayValue info e'.toTree) a a' := by
  unfold Checking.checkArrayValue
  rw [← he.soleName_eq]
  refine .bind_eq rfl fun element => (he.typeOf h false).bind_same fun found => ?_
  refine .ite_stops (by simp) fun _ => ?_
  refine (lookup_tracks h.alike _).bind fun other other' hother => ?_
  rw [← hother.info_eq]
  refine .bind_eq rfl fun _ => .bind_eq rfl fun otherElement => ?_
  refine .ite_stops (by simp) fun _ => ?_
  refine .bind_eq rfl fun _ => .bind_eq rfl fun _ => .bind_eq rfl fun _ => ?_
  exact .ite_stops .refuse fun _ => .pure rfl

theorem Designator.Reworded.checkAssign {d d' : Designator} (hd : d.Reworded R d')
    (he : e.Reworded R e') :
    Check.Tracks K (Code.Reworded R) (checkAssign d.toTree e.toTree)
      (checkAssign d'.toTree e'.toTree) a a' := by
  have hcode := h.generate (generate_assign_tracks h.words hd he)
  cases hd with
  | name n =>
    refine (lookup_tracks h.alike (.text n)).bind fun symbol symbol' hsymbol => ?_
    refine .ite (by rw [hsymbol.isTruthy_eq]) (fun _ => .of_stops (by simp)) fun _ => ?_
    rw [← hsymbol.info_eq]
    refine .bind_eq rfl fun info => .bind_eq rfl fun type => ?_
    have hvalue : Check.Tracks K (Code.Reworded R)
        (do
          let _ ← checkExpression type e.toTree
          Check.generate (.assign (.text n) e.toTree))
        (do
          let _ ← checkExpression type e'.toTree
          Check.generate (.assign (.text n) e'.toTree)) a a' :=
      (he.checks h type).bind fun _ _ _ => hcode
    exact .ite Iff.rfl (fun _ => (he.checkArrayValue h info).bind_same fun _ => hvalue)
      fun _ => hvalue
  | element hd hi =>
    have hd := Designator.Reworded.element hd hi
    refine (Operand.Reworded.checks h (.designator hd) .null).bind fun _ _ _ => ?_
    refine (hd.elementType h).bind_same fun element => (he.typeOf h false).bind_same fun found => ?_
    refine .ite_stops (by simp) fun _ => ?_
    exact (he.checks h element).bind fun _ _ _ => hcode
  | field f hd =>
    refine (hd.checkFieldAccess h .null f).bind fun _ _ _ => ?_
    refine (hd.fieldType h (.text f)).bind_same fun type => ?_
    refine .ite_stops (by simp) fun _ => ?_
    exact (he.checks h type).bind fun _ _ _ => hcode
  | call => exact .of_stops (.first .refuse)

theorem Expr.Reworded.checkTyped (he : e.Reworded R e') (name : String)
    (wrong : String → SemanticCause) :
    Check.Tracks K Eq (checkTyped name wrong e.toTree) (checkTyped name wrong e'.toTree) a a' := by
  refine (he.typeOf h false).bind_same fun found => ?_
  refine .ite_stops (by simp) fun _ => ?_
  exact (he.checks h (.text name)).bind fun _ _ _ => .pure rfl

theorem Beside.checkLoopVariable (name : Tree) :
    Check.Tracks K Eq (checkLoopVariable name) (checkLoopVariable name) a a' := by
  refine (lookup_tracks h.alike name).bind fun e e' he => ?_
  refine .ite (by rw [he.isNull_eq]) (fun _ => .of_stops (by simp))
    fun _ => ?_
  rw [← he.info_eq]
  refine .bind_eq rfl fun _ => .bind_eq rfl fun _ => ?_
  exact .ite_stops (by simp) fun _ => .pure rfl

/-- The direction of a loop is asked for as it is written. -/
theorem Beside.checkRange {e₁ e₁' e₂ e₂' : Expr} {w w' : String} (name : Tree)
    (h₁ : e₁.Reworded R e₁') (hw : R w w') (h₂ : e₂.Reworded R e₂') :
    Check.Tracks K Eq (checkRange name e₁.toTree (.text w) e₂.toTree)
      (checkRange name e₁'.toTree (.text w') e₂'.toTree) a a' := by
  refine (h.checkLoopVariable name).bind_same fun _ => ?_
  refine (h₁.checkTyped h "integer" .loopStart).bind_same fun _ => ?_
  refine (h₂.checkTyped h "integer" .loopStop).bind_same fun _ => ?_
  refine .guard (by simp) (by simp) (fun hK hno => ?_)
    fun _ => .pure rfl
  have hdown : w = "downto" ↔ w' = "downto" :=
    (h.words.respelled hw).eq_iff (by decide)
  have hup : w = "to" → w' = "to" := by
    rintro rfl
    exact h.kept hK hw (by decide)
  simp only [Tree.isTextOf, Bool.not_eq_true', Bool.or_eq_false_iff, beq_eq_false_iff_ne]
    at hno ⊢
  exact ⟨mt hup hno.1, mt hdown.1 hno.2⟩

theorem ArgumentsReworded.checkProcedureArguments : ∀ {pairs pairs' : List (Tree × Tree)},
    ArgumentsReworded R pairs pairs' → ∀ name : Tree,
      Check.Tracks K Eq (checkProcedureArguments name pairs) (checkProcedureArguments name pairs')
        a a'
  | _, _, .nil, _ => .pure rfl
  | _, _, .cons parameter he hrest, name => by
    refine .bind_eq rfl fun wanted => ?_
    split
    · refine (he.typeOf h true).bind_same fun found => .bind_eq rfl fun dimensions => ?_
      refine .ite_stops (by simp)
        fun _ => .bind_eq rfl fun element => ?_
      exact .ite_stops (by simp) fun _ => .pure rfl
    · refine (he.typeOf h false).bind_same fun found => ?_
      refine .ite_stops ?_ fun _ => hrest.checkProcedureArguments name
      simp

theorem ExprsReworded.checkProcedureCall {es es' : List Expr} (hes : ExprsReworded R es es')
    (n : String) :
    Check.Tracks K (Code.Reworded R) (checkProcedureCall (Stmt.call n es).toTree)
      (checkProcedureCall (Stmt.call n es').toTree) a a' := by
  refine part_bind rfl rfl ((lookup_tracks h.alike (.text n)).bind fun e e' he => ?_)
  refine .ite (by rw [he.isTruthy_eq]) (fun _ => .of_stops (by simp))
    fun _ => ?_
  refine h.guardKind he (by decide) (by simp)
    (by simp) ?_
  refine (hes.pairArguments he rfl rfl).bind fun x y hxy => ?_
  cases hxy with
  | inl hpairs =>
    refine (hpairs.checkProcedureArguments h _).bind_same fun _ => h.generate ?_
    exact Stmt.Reworded.generate h.words (.call n hes)
  | inr => exact .of_stops (by simp)

end

mutual

/-- The checks of statements that differ in words. -/
theorem Stmt.Reworded.checks (h : Beside R K a a') : ∀ {s s' : Stmt}, s.Reworded R s' →
    Check.Tracks K (Option.Rel (Code.Reworded R)) (checkStatement s.toTree)
      (checkStatement s'.toTree) a a'
  | _, _, .compound _ => .pure .none
  | _, _, .assign hd he => (hd.checkAssign h he).bind fun _ _ hc => .pure (.some hc)
  | _, _, .ifThen he hs => by
    refine (he.checkTyped h "boolean" .ifCondition).bind_same fun _ => ?_
    refine (hs.checksBody h).bind fun _ _ _ => ?_
    refine (h.generate (Stmt.Reworded.generate h.words (.ifThen he hs))).bind fun _ _ hc => ?_
    exact .pure (.some hc)
  | _, _, .ifElse he hs hu => by
    refine (he.checkTyped h "boolean" .ifCondition).bind_same fun _ => ?_
    refine (hs.checksBody h).bind fun _ _ _ => ?_
    have hcode := h.generate (Stmt.Reworded.generate h.words (.ifElse he hs hu))
    refine .ite (by rw [Stmt.isTruthy_toTree, Stmt.isTruthy_toTree]) (fun _ => ?_) fun hfalse =>
      absurd (Stmt.isTruthy_toTree _) hfalse
    exact (hu.checksBody h).bind fun _ _ _ => hcode.bind fun _ _ hc => .pure (.some hc)
  | _, _, .whileLoop he hs => by
    refine (he.checkTyped h "boolean" .whileCondition).bind_same fun _ => ?_
    refine (hs.checksBody h).bind fun _ _ _ => ?_
    refine (h.generate (Stmt.Reworded.generate h.words (.whileLoop he hs))).bind fun _ _ hc => ?_
    exact .pure (.some hc)
  | _, _, .forLoop n ha hw hb hs => by
    refine (h.checkRange (.text n) ha hw hb).bind_same fun _ => ?_
    refine (hs.checksBody h).bind fun _ _ _ => ?_
    refine (h.generate (Stmt.Reworded.generate h.words (.forLoop n ha hw hb hs))).bind
      fun _ _ hc => ?_
    exact .pure (.some hc)
  | _, _, .call n hes => (hes.checkProcedureCall h n).bind fun _ _ hc => .pure (.some hc)

theorem Stmt.Reworded.checksBody (h : Beside R K a a') : ∀ {s s' : Stmt}, s.Reworded R s' →
    Check.Tracks K (CodesReworded R) (checkCompound s.toTree) (checkCompound s'.toTree) a a'
  | _, _, .compound hss => hss.checks h
  | _, _, .assign _ _ | _, _, .ifThen _ _ | _, _, .ifElse _ _ _ | _, _, .whileLoop _ _
  | _, _, .forLoop _ _ _ _ _ | _, _, .call _ _ => .of_stops .fail

theorem StmtsReworded.checks (h : Beside R K a a') : ∀ {ss ss' : List Stmt},
    StmtsReworded R ss ss' → Check.Tracks K (CodesReworded R) (checkStatementList (stmtTrees ss))
      (checkStatementList (stmtTrees ss')) a a'
  | _, _, .nil => .pure .nil
  | _, _, .cons hs hss => by
    refine (hs.checks h).bind fun first first' hfirst => (hss.checks h).bind fun _ _ hrest => ?_
    cases hfirst with
    | some hc => exact .pure (.cons hc hrest)
    | none => exact .pure hrest

end

/-! ### Runs that declare names -/

/-- Where the first run completes, the second one leaves an analysis alike and gives a related
result if it completes, and it does complete under the condition `K`. -/
def Declare.Tracks (R : String → String → Prop) (K : Prop) {α β : Type} (Q : α → β → Prop)
    (m : Declare α) (m' : Declare β) (s s' : Analysis) : Prop :=
  ∀ ⦃x t⦄, Runs m s x t →
    (K → Completes m' s') ∧ ∀ ⦃y t'⦄, Runs m' s' y t' → Q x y ∧ t.Alike R t'

namespace Declare.Tracks

variable {α β γ δ : Type} {Q : α → β → Prop} {S : γ → δ → Prop} {m : Declare α} {m' : Declare β}
  {s s' : Analysis} {f : α → Declare γ} {g : α → Declare δ}

theorem pure {x : α} {y : β} (h : s.Alike R s') (hxy : Q x y) :
    Declare.Tracks R K Q (Pure.pure x) (Pure.pure y) s s' := by
  intro x' t hx
  obtain ⟨rfl, rfl⟩ := runs_pure.1 hx
  refine ⟨fun _ => ⟨y, s', runs_pure.2 ⟨rfl, rfl⟩⟩, fun y' t' hy => ?_⟩
  obtain ⟨rfl, rfl⟩ := runs_pure.1 hy
  exact ⟨hxy, h⟩

theorem throw {e : AnalysisError} : Declare.Tracks R K Q (MonadExcept.throw e) m' s s' :=
  fun _ _ h => absurd h not_runs_throw

theorem check {c : Check α} {c' : Check β} (h : s.Alike R s')
    (hc : Check.Tracks K Q c c' s s') : Declare.Tracks R K Q (liftM c) (liftM c') s s' := by
  intro x t hx
  obtain ⟨hfirst, rfl⟩ := Declare.runs_check.1 hx
  obtain ⟨hsucceeds, hrelated⟩ := hc hfirst
  refine ⟨fun hK => ?_, fun y t' hy => ?_⟩
  · obtain ⟨y, hy⟩ := hsucceeds hK
    exact ⟨y, s', Declare.runs_check.2 ⟨hy, rfl⟩⟩
  · obtain ⟨hsecond, rfl⟩ := Declare.runs_check.1 hy
    exact ⟨hrelated hsecond, h⟩

theorem modify {f g : Analysis → Analysis} (h : (f s).Alike R (g s')) :
    Declare.Tracks R K Eq (modify f) (modify g) s s' := by
  intro x t hx
  obtain rfl := runs_modify.1 hx
  refine ⟨fun _ => ⟨⟨⟩, g s', runs_modify.2 rfl⟩, fun y t' hy => ?_⟩
  obtain rfl := runs_modify.1 hy
  exact ⟨rfl, h⟩

theorem bind {g : β → Declare δ} (h : Declare.Tracks R K Q m m' s s')
    (hf : ∀ x y t t', Q x y → t.Alike R t' → Declare.Tracks R K S (f x) (g y) t t') :
    Declare.Tracks R K S (m >>= f) (m' >>= g) s s' := by
  intro z t hz
  obtain ⟨x, mid, hx, hz⟩ := runs_bind.1 hz
  obtain ⟨hcompletes, hrelated⟩ := h hx
  refine ⟨fun hK => ?_, fun w t' hw => ?_⟩
  · obtain ⟨y, mid', hy⟩ := hcompletes hK
    obtain ⟨hxy, hmid⟩ := hrelated hy
    obtain ⟨w, t', hw⟩ := (hf x y mid mid' hxy hmid hz).1 hK
    exact ⟨w, t', runs_bind.2 ⟨y, mid', hy, hw⟩⟩
  · obtain ⟨y, mid', hy, hw⟩ := runs_bind.1 hw
    obtain ⟨hxy, hmid⟩ := hrelated hy
    exact (hf x y mid mid' hxy hmid hz).2 hw

/-- First steps that give the same. -/
theorem bind_same {m m' : Declare α} (h : Declare.Tracks R K Eq m m' s s')
    (hf : ∀ x t t', t.Alike R t' → Declare.Tracks R K S (f x) (g x) t t') :
    Declare.Tracks R K S (m >>= f) (m' >>= g) s s' :=
  h.bind fun x _ t t' hxy ht => hxy ▸ hf x t t' ht

/-- A check that gives the same before other steps. -/
theorem check_same {c c' : Check α} (hc : c s = c' s')
    (hf : ∀ x, Declare.Tracks R K S (f x) (g x) s s') :
    Declare.Tracks R K S (liftM c >>= f) (liftM c' >>= g) s s' := by
  intro z t hz
  obtain ⟨x, hx, hz⟩ := Declare.runs_check_bind.1 hz
  refine ⟨fun hK => ?_, fun w t' hw => ?_⟩
  · obtain ⟨w, t', hw⟩ := (hf x hz).1 hK
    exact ⟨w, t', Declare.runs_check_bind.2 ⟨x, hc ▸ hx, hw⟩⟩
  · obtain ⟨y, hy, hw⟩ := Declare.runs_check_bind.1 hw
    obtain rfl := Except.ok.inj ((hc ▸ hx).symm.trans hy)
    exact (hf x hz).2 hw

theorem get_bind {f g : Analysis → Declare α} {S : α → α → Prop}
    (hf : Declare.Tracks R K S (f s) (g s') s s') :
    Declare.Tracks R K S (get >>= f) (get >>= g) s s' := by
  intro x t hx
  obtain ⟨hcompletes, hrelated⟩ := hf (runs_get_bind.1 hx)
  refine ⟨fun hK => ?_, fun y t' hy => hrelated (runs_get_bind.1 hy)⟩
  obtain ⟨y, t', hy⟩ := hcompletes hK
  exact ⟨y, t', runs_get_bind.2 hy⟩

end Declare.Tracks

namespace Declaring

variable {s s' : Analysis}

/-! ### Declarations -/

theorem declareIn_tracks (h : s.Alike R s') (k : Nat) (name : Tree) {info info' : Tree}
    (hinfo : EntryAlike R info info') :
    Declare.Tracks R K Eq (declareIn k name info) (declareIn k name info') s s' := by
  refine .check_same rfl fun key => .get_bind ?_
  have hdeclared := h.scopes.declareIn? k key hinfo
  generalize s.scopes.declareIn? k key info = scopes at hdeclared ⊢
  generalize s'.scopes.declareIn? k key info' = scopes' at hdeclared ⊢
  cases hdeclared with
  | some hscopes => exact .modify (h.withScopes hscopes)
  | none => exact .throw

theorem declare_tracks (h : s.Alike R s') (name : Tree) {info info' : Tree}
    (hinfo : EntryAlike R info info') :
    Declare.Tracks R K Eq (declare name info) (declare name info') s s' := by
  refine .get_bind ?_
  rw [← h.scopes.current]
  exact declareIn_tracks h _ name hinfo

theorem declareType_tracks (h : s.Alike R s') (name type : Tree) :
    Declare.Tracks R K Eq (declareType name type) (declareType name type) s s' := by
  unfold declareType
  split
  · exact .check_same (Check.Same.bind rfl (fieldInfoList_same h)) fun _ =>
      declare_tracks h name (.same _)
  · exact .check_same (Initial.arrayInfo_same h .storage _ _ _) fun _ =>
      declare_tracks h name (.same _)
  · exact .pure h rfl

theorem declareConstant_tracks (h : s.Alike R s') (name value : Tree) :
    Declare.Tracks R K Eq (declareConstant name value) (declareConstant name value) s s' :=
  .check_same (Initial.constantInfo_same h value) fun _ => declare_tracks h name (.same _)

theorem declareVariable_tracks (h : s.Alike R s') (name type initial : Tree) :
    Declare.Tracks R K Eq (declareVariable name type initial) (declareVariable name type initial)
      s s' :=
  .check_same (Initial.filledType_same h type) fun filled =>
    .check_same (Initial.variableInfo_same h filled initial) fun _ =>
      (declare_tracks h name (.same _)).bind_same fun _ _ _ ht => .pure ht rfl

theorem declareLocals_tracks (scope : Nat) (array : Option Tree) :
    ∀ (parameters : List (Tree × Tree)) {s s' : Analysis}, s.Alike R s' →
      Declare.Tracks R K Eq (declareLocals scope array parameters)
        (declareLocals scope array parameters) s s'
  | [], _, _, h => .pure h rfl
  | (name, type) :: rest, _, _, h => by
    unfold declareLocals
    split
    · cases array with
      | some described =>
        exact (declareIn_tracks h scope name (.same _)).bind_same fun _ _ _ ht =>
          declareLocals_tracks scope _ rest ht
      | none =>
        exact (Declare.Tracks.throw (Q := fun _ _ => False)).bind fun _ _ _ _ hfalse => hfalse.elim
    · exact (declareIn_tracks h scope name (.same _)).bind_same fun _ _ _ ht =>
        declareLocals_tracks scope array rest ht

/-! ### Routines -/

/-- Two routines whose bodies are being analysed. -/
structure OpenRoutine.Alike (R : String → String → Prop) (o o' : OpenRoutine) : Prop where
  home : o.home = o'.home
  locals : o.locals = o'.locals
  code : Option.Rel (BodyAlike R) o.code o'.code
  parameters : o.parameters = o'.parameters

variable {w w' : String}

theorem enterRoutine_tracks (h : s.Alike R s') (hw : R w w') (name result : Tree)
    (parameters : List (Tree × Tree)) (array : Option Tree) :
    Declare.Tracks R K (OpenRoutine.Alike R)
      (enterRoutine (.text w) name result parameters array)
      (enterRoutine (.text w') name result parameters array) s s' := by
  refine (declare_tracks h name (.routine hw result .none .null parameters)).bind_same
    fun _ t t' ht => .get_bind ?_
  have hopen := ht.scopes.openIn (some t.scopes.current)
  dsimp only [Scopes.openIn] at hopen ⊢
  rw [← ht.scopes.current] at hopen
  rw [← ht.scopes.current, ← ht.scopes.size_eq]
  refine (Declare.Tracks.modify (ht.withScopes hopen)).bind_same fun _ _ _ hu => ?_
  refine (declareLocals_tracks _ array parameters hu).bind_same fun _ _ _ hu => ?_
  refine (Declare.Tracks.modify ⟨hu.scopes.withCurrent _, .none⟩).bind_same fun _ _ _ hu => ?_
  exact .pure hu ⟨rfl, rfl, ht.code, rfl⟩

/-- A routine whose name is known already stops both runs. -/
theorem checkNewRoutine_tracks (h : s.Alike R s') (kind kind' name : Tree) :
    Check.Tracks K Eq (checkNewRoutine kind name) (checkNewRoutine kind' name) s s' := by
  refine (lookup_tracks h name).bind fun e e' he => ?_
  exact .ite (by rw [he.isTruthy_eq]) (fun _ => .of_stops (by simp))
    fun _ => .pure rfl

theorem openRoutine_tracks (h : s.Alike R s') (hw : R w w') (name parameters result : Tree) :
    Declare.Tracks R K (OpenRoutine.Alike R) (openRoutine (.text w) name parameters result)
      (openRoutine (.text w') name parameters result) s s' :=
  (Declare.Tracks.check h (checkNewRoutine_tracks h _ _ name)).bind_same fun _ _ _ ht =>
    .check_same (routineParameters_same ht parameters) fun typed =>
      enterRoutine_tracks ht hw name result typed.1 typed.2

theorem closeRoutine_tracks (h : s.Alike R s') {o o' : OpenRoutine} (ho : o.Alike R o')
    (hw : R w w') (name result : Tree) {body body' : Tree} (hbody : BodyAlike R body body') :
    Declare.Tracks R K (fun _ _ => True) (closeRoutine o (.text w) name result body)
      (closeRoutine o' (.text w') name result body') s s' := by
  obtain ⟨home, locals, code, parameters⟩ := o
  obtain ⟨_, _, code', _⟩ := o'
  obtain ⟨rfl, rfl, hcode, rfl⟩ := ho
  refine .check_same rfl fun key => ?_
  have hentry := EntryAlike.routine hw result hbody (.scope locals) parameters
  have hscopes := (h.scopes.update home key hentry).withCurrent home
  exact (Declare.Tracks.modify ⟨hscopes, hcode⟩).bind_same fun _ _ _ hu => .pure hu trivial

/-! ### Blocks -/

/-- The body of a block is checked in a new scope. -/
theorem finishBlock_tracks (hR : Respells R) (hK : K → Kept R) (h : s.Alike R s')
    {ss ss' : List Stmt} (hss : StmtsReworded R ss ss') :
    Declare.Tracks R K (BodyAlike R) (finishBlock (compoundTree ss))
      (finishBlock (compoundTree ss')) s s' := by
  refine (Declare.Tracks.modify (h.withScopes h.scopes.enter)).bind_same fun _ t t' ht => ?_
  refine (Declare.Tracks.check ht (hss.checks ⟨hR, hK, ht⟩)).bind fun cs cs' t t' hcs ht => ?_
  refine (Declare.Tracks.modify ⟨ht.scopes, .some (.code hcs)⟩).bind_same fun _ _ _ ht => ?_
  exact .pure ht (.code hcs)

/-- A routine is declared before its body is analysed and gets its code afterwards. -/
theorem routine_tracks (hw : R w w') (n : String) (ps : List Parameter) (result : TypeExpr)
    (before : Option Tree) {b b' : Block} (hb : ∀ {s s' : Analysis}, s.Alike R s' →
      Declare.Tracks R K (BodyAlike R) (analyzeBlock b.toTree) (analyzeBlock b'.toTree) s s')
    (h : s.Alike R s') :
    Declare.Tracks R K Eq (declareItem before (Decl.routine w n ps b result).toTree)
      (declareItem before (Decl.routine w' n ps b' result).toTree) s s' :=
  (openRoutine_tracks h hw _ _ _).bind fun _ _ _ _ ho ht =>
    (hb ht).bind fun _ _ _ _ hbody ht =>
      (closeRoutine_tracks ht ho hw _ _ hbody).bind fun _ _ _ _ _ ht => .pure ht rfl

end Declaring

open Declaring

mutual

theorem Block.Reworded.analyzes (hR : Respells R) (hK : K → Kept R) : ∀ (b : Block) {b' : Block},
    b.Reworded R b' → ∀ {s s' : Analysis}, s.Alike R s' →
      Declare.Tracks R K (BodyAlike R) (analyzeBlock b.toTree) (analyzeBlock b'.toTree) s s'
  | .mk ds ss, _, .mk hds hss, s, s', h => by
    have hbody : ∀ {s s' : Analysis}, s.Alike R s' → Declare.Tracks R K (BodyAlike R)
        (finishBlock (compoundTree ss)) (finishBlock (compoundTree _)) s s' :=
      fun h => finishBlock_tracks hR hK h hss
    have hall := DeclsReworded.analyzes hR hK ds hds none h
    cases hds with
    | nil => exact hbody h
    | cons => exact hall.bind_same fun _ _ _ ht => hbody ht

theorem Decl.Reworded.analyzes (hR : Respells R) (hK : K → Kept R) : ∀ (d : Decl) {d' : Decl},
    d.Reworded R d' → ∀ (before : Option Tree) {s s' : Analysis}, s.Alike R s' →
      Declare.Tracks R K Eq (declareItem before d.toTree) (declareItem before d'.toTree) s s'
  | .type n type, _, .same _, _, _, _, h =>
    (declareType_tracks h (.text n) type.toTree).bind_same fun _ _ _ ht => .pure ht rfl
  | .const _ _ _, _, .same _, _, _, _, h =>
    (declareConstant_tracks h _ _).bind_same fun _ _ _ ht => .pure ht rfl
  | .var _ _ _ _, _, .same _, _, _, _, h =>
    (declareVariable_tracks h _ _ _).bind_same fun _ _ _ ht => .pure ht rfl
  | .routine w n ps b result, _, .same _, before, _, _, h =>
    routine_tracks (hR.refl w) n ps result before
      (Block.Reworded.analyzes hR hK b (b.reworded_refl hR.refl)) h
  | .routine _ n ps b result, _, .routine _ _ _ hw hb, before, _, _, h =>
    routine_tracks hw n ps result before (Block.Reworded.analyzes hR hK b hb) h

theorem DeclsReworded.analyzes (hR : Respells R) (hK : K → Kept R) : ∀ (ds : List Decl)
    {ds' : List Decl}, DeclsReworded R ds ds' → ∀ (before : Option Tree) {s s' : Analysis},
    s.Alike R s' → Declare.Tracks R K Eq (declareList before (declTrees ds))
      (declareList before (declTrees ds')) s s'
  | [], _, .nil, _, _, _, h => .pure h rfl
  | d :: ds, _, .cons hd hds, before, _, _, h =>
    (Decl.Reworded.analyzes hR hK d hd before h).bind_same fun type _ _ ht =>
      DeclsReworded.analyzes hR hK ds hds type ht

end

end MiniPascal
