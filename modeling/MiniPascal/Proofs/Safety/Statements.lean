import MiniPascal.Proofs.Safety.Expressions

/-!
# Checks of Statements End by Design

Statements of regular programs are checked without a fault, where the names that are visible have
entries that describe them.
-/

namespace MiniPascal

open Check Checking Typing

section Checked

variable {env : Env} {a : Analysis}

/-! ### Assignments -/

/-- A name that can be assigned to an array is visible. -/
theorem Expr.soleName_toTree {e : Expr} (htypable : e.isTypable env = true)
    (hname : e.first.isName = true) : ∃ n, e.toTree.soleName = .text n ∧ env.has n = true := by
  have hoperand : ∀ {o : Operand}, o.isName = true → o.isTypable env = true →
      ∃ n, o.toTree.soleName = .text n ∧ env.has n = true := by
    intro o hname htypable
    cases o with
    | designator place =>
      cases place with
      | name n => exact ⟨n, rfl, htypable⟩
      | _ => exact absurd hname nofun
    | _ => exact absurd hname nofun
  cases e with
  | operand o => exact hoperand hname htypable
  | compare left operator right =>
    simp only [Expr.isTypable, Bool.and_eq_true] at htypable
    exact hoperand hname htypable.1.1

/-- An array can be compared with another one that is a name. -/
theorem checkArrayValue_settles (h : Ready env a) {info : Tree} {type : ArrayType}
    (hinfo : type.Describes info) {value : Expr} (htypable : value.isTypable env = true)
    (hvalue : value.first.isName = true ∨ value.first.isArray env = false) :
    (checkArrayValue info value.toTree).Settles a fun _ => True := by
  cases hinfo
  refine .step_bind rfl ((typeOf_settles h htypable).bind fun found hfound => ?_)
  refine .ite (fun _ => .shown_bind hfound.1 fun _ => .refuse_bind) fun hnamed => ?_
  have hname := hvalue.resolve_right fun hnot => hfound.2 hnot (by simpa using hnamed)
  obtain ⟨n, hn, hvisible⟩ := Expr.soleName_toTree htypable hname
  rw [hn]
  refine h.lookup_bind n (fun hnone => ?_) fun m entry info _ _ hr => ?_
  · rw [Env.has, hnone] at hvisible
    exact absurd hvisible Bool.false_ne_true
  have hword : (m.array?.elim Tree.null fun type => .text type.element).IsWord := by
    cases m.array? with
    | none => exact .null
    | some type => exact .text _
  refine .step_bind hr.told (.step_bind hr.element (.ite (fun _ => ?_) fun _ => ?_))
  · exact .step_bind rfl (.shown_bind hword.plain fun _ => .refuse_bind)
  refine .step_bind rfl (.step_bind hr.told (.shown_bind (hr.get _) fun _ => ?_))
  exact .ite (fun _ => .refuse) fun _ => .pure trivial

/-- An assignment is checked without a fault. -/
theorem checkAssign_settles (h : Ready env a) {target : Designator} {value : Expr}
    (hcheck : (Stmt.assign target value).isCheckable env = true)
    (hwrite : (Stmt.assign target value).isWritable = true) :
    (checkAssign target.toTree value.toTree).Settles a fun _ => True := by
  obtain ⟨c, hc, -⟩ := Stmt.generates hwrite
  simp only [Stmt.isCheckable, Bool.and_eq_true] at hcheck
  simp only [Stmt.isWritable, Bool.and_eq_true] at hwrite
  obtain ⟨⟨htarget, hvalue⟩, hregular⟩ := hcheck
  have hend : ∀ {expected : Tree}, expected.IsWord → Settles (do
      let _ ← checkExpression expected value.toTree
      generate (Stmt.assign target value).toTree) a fun _ => True := fun he =>
    (checkExpression_settles h hvalue hwrite.2 he).bind fun _ _ => .generate h.code hc trivial
  cases target with
  | name n =>
    refine h.lookup_bind n (fun _ => .refuse_bind) fun m entry info hm _ hr => ?_
    have hword := m.isWord_valueType
    refine .ite (fun _ => .refuse_bind) fun _ => .step_bind hr.told (.step_bind hr.value ?_)
    refine .ite (fun harray => ?_) fun _ => hend hword
    obtain ⟨known, hknown⟩ := Meaning.exists_array harray
    have hn : env.isArray n = true := by simp [Env.isArray, Env.array?, hm, hknown]
    simp only [assignmentIsRegular, hn, Bool.not_true, Bool.false_or, Bool.and_eq_true,
      Bool.or_eq_true, Bool.not_eq_true'] at hregular
    have harray := checkArrayValue_settles h (hr.array known hknown) hregular.1 hregular.2
    exact harray.bind fun _ _ => hend hword
  | element base index =>
    have hplace := checkOperand_settles h (o := .designator (.element base index)) htarget hwrite.1
      .null
    have helement := elementType_settles h.fits (h.startsKnown (.element base index))
    refine hplace.bind fun _ _ => helement.bind ?_
    rintro _ ⟨type, -, rfl⟩
    refine (typeOf_settles h hregular).bind fun found hfound => .ite (fun _ => ?_) fun _ => ?_
    · exact .shown_bind hfound.1 fun _ => .step_bind rfl .refuse_bind
    · exact hend (.text _)
  | field base f =>
    have hplace := checkFieldAccess_settles h (d := base) htarget hwrite.1 .null f
    refine hplace.bind fun _ _ => (fieldType_settles h.fits f (h.startsKnown base)).bind ?_
    intro type htype
    refine .ite (fun _ => ?_) fun htruthy => hend ?_
    · exact .shown_bind (Designator.field base f).succeeds_render fun _ => .refuse_bind
    · rcases htype with rfl | ⟨_, -, τ, -, rfl⟩
      · exact .null
      · exact .text _
  | call base arguments => exact .refuse_bind

/-! ### Conditions, ranges and calls -/

/-- An expression is checked against a type without a fault. -/
theorem checkTyped_settles (h : Ready env a) (name : String) (wrong : String → SemanticCause)
    {e : Expr} (he : e.isTested env = true) (hwrite : e.isWritable = true) :
    (checkTyped name wrong e.toTree).Settles a fun _ => True := by
  rw [Expr.isTested, Bool.and_eq_true] at he
  refine (typeOf_settles h he.1).bind fun found hfound => .ite (fun _ => ?_) fun _ => ?_
  · exact .shown_bind hfound.1 fun _ => .refuse_bind
  · exact (checkExpression_settles h he.2 hwrite (.text name)).bind fun _ _ => .pure trivial

theorem checkLoopVariable_settles (h : Ready env a) (n : String) :
    (checkLoopVariable (.text n)).Settles a fun _ => True := by
  refine h.lookup_bind n (fun _ => .step_bind rfl .refuse_bind) fun m entry info _ _ hr => ?_
  refine .ite (fun _ => .step_bind rfl .refuse_bind) fun _ => .step_bind hr.told ?_
  refine .step_bind hr.value (.ite (fun _ => .step_bind rfl ?_) fun _ => .pure trivial)
  exact .shown_bind m.isWord_valueType.plain fun _ => .refuse

theorem checkRange_settles (h : Ready env a) (n direction : String) {start stop : Expr}
    (hstart : start.isTested env = true) (hstart' : start.isWritable = true)
    (hstop : stop.isTested env = true) (hstop' : stop.isWritable = true) :
    (checkRange (.text n) start.toTree (.text direction) stop.toTree).Settles a fun _ => True := by
  refine (checkLoopVariable_settles h n).bind fun _ _ => ?_
  refine (checkTyped_settles h "integer" _ hstart hstart').bind fun _ _ => ?_
  refine (checkTyped_settles h "integer" _ hstop hstop').bind fun _ _ => ?_
  refine .ite (fun _ => ?_) fun _ => .pure trivial
  exact .shown_bind (succeeds_plain_text direction) fun _ => .refuse

theorem checkProcedureArguments_settles (h : Ready env a) (n : String) :
    ∀ {pairs : List (Tree × Tree)}, ArePaired env pairs →
      (checkProcedureArguments (.text n) pairs).Settles a fun _ => True
  | [], _ => .pure trivial
  | (parameter, argument) :: rest, hpairs => by
    obtain ⟨⟨hparameter, e, he, htypable⟩, hrest⟩ := List.forall_mem_cons.1 hpairs
    obtain rfl : argument = e.toTree := he
    cases hparameter with
    | mk shown hplain harray =>
      refine .step_bind rfl ?_
      split
      next => exact absurd rfl (harray _ _ _)
      next =>
        refine (typeOf_settles h htypable).bind fun found hfound => .ite (fun _ => ?_) fun _ => ?_
        · exact .shown_bind (succeeds_plain_text n) fun _ => .step_bind rfl
            (.shown_bind (succeeds_plain_text _) fun _ => .shown_bind hplain fun _ =>
              .shown_bind hfound.1 fun _ => .refuse_bind)
        · exact checkProcedureArguments_settles h n hrest

/-- A call of a procedure is checked without a fault. -/
theorem checkProcedureCall_settles (h : Ready env a) {n : String} {arguments : List Expr}
    (harguments : ∀ e ∈ arguments, e.isTypable env = true)
    (hwrite : (Stmt.call n arguments).isWritable = true) :
    (checkProcedureCall (Stmt.call n arguments).toTree).Settles a fun _ => True := by
  have hshown := succeeds_plain_text n
  obtain ⟨c, hc, -⟩ := Stmt.generates hwrite
  refine .step_bind rfl (h.fits.lookup_bind n (fun _ => ?_) fun m entry _ hentry => ?_)
  · exact .shown_bind hshown fun _ => .refuse_bind
  refine .ite (fun _ => .shown_bind hshown fun _ => .refuse_bind) fun _ => ?_
  obtain ⟨kind, hkind⟩ := hentry.succeeds_get "kind"
  refine .step_bind hkind
    (.ite (fun _ => .shown_bind hshown fun _ => .refuse_bind) fun hprocedure => ?_)
  cases hentry with
  | routine kind name ps result code locals =>
    refine (pairArguments_settles harguments rfl).bind fun paired hpaired => ?_
    cases paired with
    | inl pairs =>
      refine (checkProcedureArguments_settles h n (hpaired pairs rfl)).bind fun _ _ => ?_
      exact .generate h.code hc trivial
    | inr counts => exact .shown_bind hshown fun _ => .refuse_bind
  | _ =>
    obtain rfl := Except.ok.inj hkind
    exact absurd rfl hprocedure

/-! ### Bodies -/

/-- A check of a part before the code of the whole is generated. -/
theorem settles_then_generate (h : Ready env a) {st : Stmt} (hwrite : st.isWritable = true) :
    Settles (do return some (← generate st.toTree)) a fun _ => True := by
  obtain ⟨c, hc, -⟩ := Stmt.generates hwrite
  exact (Settles.generate (Q := fun _ => True) h.code hc trivial).bind fun _ _ => .pure trivial

mutual

/-- A statement is checked without a fault. -/
theorem checkStatement_settles (h : Ready env a) : ∀ {st : Stmt}, st.isCheckable env = true →
    st.isWritable = true → (checkStatement st.toTree).Settles a fun _ => True
  | .compound _, _, _ => .pure trivial
  | .assign target value, hcheck, hwrite =>
    (checkAssign_settles h hcheck hwrite).bind fun _ _ => .pure trivial
  | .ifThen condition (.compound ss), hcheck, hwrite
  | .whileLoop condition (.compound ss), hcheck, hwrite => by
    have hend := settles_then_generate h hwrite
    simp only [Stmt.isCheckable, Bool.and_eq_true] at hcheck
    simp only [Stmt.isWritable, Bool.and_eq_true] at hwrite
    refine (checkTyped_settles h "boolean" _ hcheck.1 hwrite.1).bind fun _ _ => ?_
    exact (checkStatementList_settles h hcheck.2 hwrite.2).bind fun _ _ => hend
  | .ifElse condition (.compound ss) (.compound ss'), hcheck, hwrite => by
    have hend := settles_then_generate h hwrite
    simp only [Stmt.isCheckable, Bool.and_eq_true] at hcheck
    simp only [Stmt.isWritable, Bool.and_eq_true] at hwrite
    refine (checkTyped_settles h "boolean" _ hcheck.1 hwrite.1).bind fun _ _ => ?_
    refine (checkStatementList_settles h hcheck.2.1 hwrite.2.1).bind fun _ _ => ?_
    exact (checkStatementList_settles h hcheck.2.2 hwrite.2.2).bind fun _ _ => hend
  | .forLoop n start direction stop (.compound ss), hcheck, hwrite => by
    have hend := settles_then_generate h hwrite
    simp only [Stmt.isCheckable, Bool.and_eq_true] at hcheck
    simp only [Stmt.isWritable, Bool.and_eq_true] at hwrite
    refine (checkRange_settles h n direction hcheck.1 hwrite.1.1 hcheck.2.1 hwrite.2.1).bind
      fun _ _ => ?_
    exact (checkStatementList_settles h hcheck.2.2 hwrite.2.2).bind fun _ _ => hend
  | .call n arguments, hcheck, hwrite => by
    refine (checkProcedureCall_settles h ?_ hwrite).bind fun _ _ => .pure trivial
    simpa [Stmt.isCheckable] using hcheck

theorem checkStatementList_settles (h : Ready env a) : ∀ {ss : List Stmt},
    stmtsAreCheckable env ss = true → stmtsAreWritable ss = true →
    (checkStatementList (stmtTrees ss)).Settles a fun _ => True
  | [], _, _ => .pure trivial
  | st :: ss, hcheck, hwrite => by
    rw [stmtsAreCheckable, Bool.and_eq_true] at hcheck
    rw [stmtsAreWritable, Bool.and_eq_true] at hwrite
    refine (checkStatement_settles h hcheck.1 hwrite.1).bind fun _ _ => ?_
    exact (checkStatementList_settles h hcheck.2 hwrite.2).bind fun _ _ => .pure trivial

end

/-- The statements of a body are checked without a fault. -/
theorem checkCompound_settles (h : Ready env a) : ∀ {ss : List Stmt}, bodyIsRegular env ss = true →
    (checkCompound (compoundTree ss)).Settles a fun _ => True
  | [], _ => .pure trivial
  | st :: ss, hss => by
    have hss : (st.isCompound || st.isCheckable env && st.isWritable) = true ∧
        bodyIsRegular env ss = true := by
      simpa only [bodyIsRegular, List.all_cons, Bool.and_eq_true] using hss
    have hrest := checkCompound_settles h hss.2
    have hfirst : (checkStatement st.toTree).Settles a fun _ => True := by
      rcases Bool.or_eq_true_iff.1 hss.1 with hcompound | hregular
      · cases st with
        | compound ss => exact .pure trivial
        | _ => exact absurd hcompound nofun
      · rw [Bool.and_eq_true] at hregular
        exact checkStatement_settles h hregular.1 hregular.2
    exact hfirst.bind fun _ _ => hrest.bind fun _ _ => .pure trivial

end Checked

end MiniPascal
