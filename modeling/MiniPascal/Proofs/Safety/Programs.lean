import MiniPascal.Proofs.Analysis.Programs
import MiniPascal.Proofs.Safety.Defaults
import MiniPascal.Proofs.Safety.Statements

/-!
# Analyses of Regular Programs End by Design

The analysis of a regular program gives a table of its names, or refuses the program, or finds a
name that is declared twice in one scope. It never breaks off with a fault.

* `analyzeBlock_settles`: the analysis of a regular block ends by design.
-/

namespace MiniPascal

open Check Declare Declaring Initial

/-- Declarations can be analysed: the names are visible, what they stand for is regular, and no
block has been completed. -/
structure Prepared (env : Env) (s : Analysis) : Prop where
  fits : env.Fits s.scopes s.scopes.current
  regular : env.Regular
  code : s.code = none

theorem Prepared.ready {env : Env} {s : Analysis} (h : Prepared env s) : Ready env s :=
  ⟨h.fits, fun _ => h.regular.known, h.code⟩

section Steps

variable {env : Env} {s s' : Analysis}

/-! ### Names -/

theorem declareIn_settles (k : Nat) (n : String) (info : Tree) :
    (declareIn k (.text n) info).Settles s := by
  refine .check_bind (Q := fun _ => True) (.step rfl trivial) fun key _ _ => .get_bind ?_
  split
  · exact .modify _
  · intro e s' h
    obtain rfl : AnalysisError.duplicate key = e := Except.error.inj (congrArg Prod.fst h)
    rfl

theorem declare_settles (n : String) (info : Tree) : (declare (.text n) info).Settles s :=
  .get_bind (declareIn_settles s.scopes.current n info)

/-! ### Types -/

/-- A field whose type has initial values that fit it can be described, if its type is known. -/
theorem fieldInfo_settles (h : Ready env s) {name : String} {type : TypeExpr}
    (htype : type.isRegular env = true) :
    (fieldInfo (.text name) type.toTree).Settles s fun _ =>
      ∀ n, type = .named n → env.knowsType n = true := by
  cases type with
  | named n =>
    have hknown : ∀ n', TypeExpr.named n = .named n' → env.knowsType n = true →
        env.knowsType n' = true := by
      rintro _ ⟨⟩ hn
      exact hn
    refine .ite (fun _ => ?_) fun hbasic => .pure fun n' hn => hknown n' hn ?_
    · refine h.fits.lookup_bind n (fun _ => .step_bind rfl (.step_bind rfl .refuse_bind)) ?_
      intro m entry hm hentry
      refine .ite (fun hnot => ?_) fun _ => .pure fun n' hn => hknown n' hn ?_
      · rw [hentry.isTruthy] at hnot
        cases hnot
      · simp [Env.knowsType, Env.has, hm]
    · have hbasic : n = "integer" ∨ n = "string" := by
        by_contra hnot
        rw [not_or] at hnot
        exact hbasic (by simp [Tree.isTextOf, hnot])
      rcases hbasic with rfl | rfl <;> rfl
  | array type =>
    exact (arrayInfo_settles h .storage type (ArrayType.fits_of_isRegular htype)).bind
      fun _ _ => .pure fun _ h => by cases h
  | record fields | omitted => exact .pure fun _ h => by cases h

variable {type : DeclaredType} {fs : List (String × TypeExpr)} {ps : List Parameter} {n : String}
  {initial : Option ConstValue} {before : Option DeclaredType} {result : TypeExpr}
  {routine : OpenRoutine}

theorem fieldInfoList_settles (h : Ready env s) (hfs : ∀ f ∈ fs, f.2.isRegular env = true) :
    (fieldInfoList (memberTrees fs)).Settles s fun _ =>
      ∀ f ∈ fs, ∀ n, f.2 = .named n → env.knowsType n = true := by
  induction fs with
  | nil => exact .pure nofun
  | cons f fs ih =>
    obtain ⟨name, type⟩ := f
    rw [List.forall_mem_cons] at hfs
    refine .step_bind rfl ((fieldInfo_settles h hfs.1).bind fun info hinfo => ?_)
    refine (ih hfs.2).bind fun infos hinfos => .pure ?_
    exact List.forall_mem_cons.2 ⟨hinfo, hinfos⟩

theorem parameterTypes_settles (h : Ready env s) (hps : ∀ p ∈ ps, p.type.isRegular env = true)
    (array : Option Tree) :
    (parameterTypes (ps.map Parameter.toTree) array).Settles s fun _ => True := by
  induction ps generalizing array with
  | nil => exact .pure trivial
  | cons p ps ih =>
    obtain ⟨name, type, mode⟩ := p
    rw [List.forall_mem_cons] at hps
    refine .step_bind rfl ?_
    have hrest : ∀ (kept : Tree) (array : Option Tree), Settles (do
        let shown ← (Parameter.toTree ⟨name, type, mode⟩).part "identifier"
        let typed ← parameterTypes (ps.map Parameter.toTree) array
        return ((shown, kept) :: typed.1, typed.2)) s fun _ => True := fun kept array =>
      .step_bind rfl ((ih hps.2 array).bind fun _ _ => .pure trivial)
    cases type with
    | array type =>
      refine (arrayInfo_settles h .storage type (ArrayType.fits_of_isRegular hps.1)).bind ?_
      exact fun described _ => hrest _ (some described)
    | named n | record fields | omitted => exact hrest _ array

theorem routineParameters_settles (h : Ready env s) (hps : ∀ p ∈ ps, p.type.isRegular env = true) :
    (routineParameters (.list (ps.map Parameter.toTree))).Settles s fun typed =>
      typed.1 = ps.map Parameter.pair ∧
        Option.Rel ArrayType.Describes (lastArray? none ps) typed.2 := by
  have hsettles :
      (routineParameters (.list (ps.map Parameter.toTree))).Settles s fun _ => True := by
    cases ps with
    | nil => exact .pure trivial
    | cons p ps => exact .step_bind rfl (parameterTypes_settles h hps none)
  exact hsettles.ensures (routineParameters_ensures ps)

/-! ### Declarations -/

theorem declareConstant_settles (h : Prepared env s) {value : Option ConstValue}
    (hvalue : type.isRegular env value = true) :
    (declareConstant (.text n)
      (.tuple [type.toTree, Tree.ofOption (value.map ConstValue.toTree)])).Settles s :=
  .check_bind (constantInfo_settles h.ready hvalue) fun _ _ _ => declare_settles n _

theorem declareVariable_settles (h : Prepared env s) {t : Tree} (ht : type.KeptAs env t)
    (hinitial : type.isRegular env initial = true) :
    (declareVariable (.text n) t (Tree.ofOption (initial.map ConstValue.toTree))).Settles s := by
  refine .check_bind (filledType_settles h.ready h.regular ht) fun filled _ hfilled => ?_
  refine .check_bind (variableInfo_settles h.ready h.regular hfilled hinitial) fun info _ _ => ?_
  exact .bind (declare_settles n _) fun _ _ _ => .pure _

theorem declaredFields_settles (h : Ready env s) (hfs : ∀ f ∈ fs, f.2.isRegular env = true) :
    Check.Settles (do fieldInfoList (← (Tree.list (memberTrees fs)).elements)) s
      fun _ => ∀ f ∈ fs, ∀ n, f.2 = .named n → env.knowsType n = true :=
  .step_bind rfl (fieldInfoList_settles h hfs)

theorem Decl.isRegular_record {fields : List (String × TypeExpr)} :
    (Decl.type n (.record fields)).isRegular env before = true ↔
      env.lookup n = none ∧ (fields.map Prod.fst).Nodup ∧
        ∀ f ∈ fields, f.2.isRegular env = true ∧ f.2.isKnownField env = true := by
  simp [Decl.isRegular, Env.has, and_assoc]

theorem declareType_settles (h : Prepared env s) {type : TypeExpr}
    (hd : (Decl.type n type).isRegular env before = true) :
    (declareType (.text n) type.toTree).Settles s := by
  cases type with
  | named _ | omitted => exact .pure _
  | array type =>
    refine .check_bind (arrayInfo_settles h.ready .storage type ?_) fun _ _ _ => declare_settles n _
    exact ArrayType.fits_of_isRegular hd
  | record fields =>
    have hfields := (Decl.isRegular_record.1 hd).2.2
    exact .check_bind (declaredFields_settles h.ready fun f hf => (hfields f hf).1) fun _ _ _ =>
      declare_settles n _

/-- The type of a variable, which may be that of the one before it, has values that fit it. -/
theorem sharedType_keptAs {t : Option Tree}
    (hbefore : Option.Rel (DeclaredType.KeptAs env) before t) {sharesType : Bool}
    (hd : (sharedType before type sharesType).isRegular env initial = true) :
    (sharedType before type sharesType).KeptAs env
      (if sharesType then t.getD type.toTree else type.toTree) := by
  unfold sharedType at hd ⊢
  split
  next hshares =>
    cases hbefore with
    | none => exact DeclaredType.keptAs (if_pos hshares ▸ hd)
    | some hkept => exact hkept
  next hshares => exact DeclaredType.keptAs (if_neg hshares ▸ hd)

/-! ### Routines -/

/-- The parameters of a routine can be declared if what is known about the last array among them is
there whenever there is an array. -/
theorem declareLocals_settles (k : Nat) {array : Option Tree}
    (harray : ∀ p ∈ ps, ∀ type, p.type = .array type → array.isSome = true) (s : Analysis) :
    (declareLocals k array (ps.map Parameter.pair)).Settles s := by
  induction ps generalizing s with
  | nil => exact .pure _
  | cons p ps ih =>
    obtain ⟨name, type, mode⟩ := p
    rw [List.forall_mem_cons] at harray
    have hrest := ih harray.2
    cases type with
    | array type =>
      obtain ⟨described, rfl⟩ := Option.isSome_iff_exists.1 (harray.1 type rfl)
      exact .bind (declareIn_settles k name _) fun _ s' _ => hrest s'
    | named n | record fields | omitted =>
      exact .bind (declareIn_settles k name _) fun _ s' _ => hrest s'

theorem lastArray?_isSome {last : Option ArrayType}
    (h : last.isSome = true ∨ ∃ p ∈ ps, ∃ type, p.type = .array type) :
    (lastArray? last ps).isSome = true := by
  induction ps generalizing last with
  | nil =>
    rcases h with h | ⟨_, hp, -⟩
    · exact h
    · exact absurd hp List.not_mem_nil
  | cons p ps ih =>
    rw [lastArray?]
    split
    · exact ih (.inl rfl)
    next hnot =>
      refine ih (h.imp_right ?_)
      rintro ⟨p', hp', type, htype⟩
      rcases List.mem_cons.1 hp' with rfl | hp'
      · exact absurd htype (hnot type)
      · exact ⟨p', hp', type, htype⟩

/-- A routine whose parameters have types that can be described can be opened. -/
theorem openRoutine_settles (h : Prepared env s) {kind : String}
    (hps : ∀ p ∈ ps, p.type.isRegular env = true) :
    (openRoutine (.text kind) (.text n) (.list (ps.map Parameter.toTree))
      result.toTree).Settles s := by
  have hnew : (checkNewRoutine (.text kind) (.text n)).Settles s fun _ => True := by
    refine h.ready.fits.lookup_bind n (fun _ => .pure trivial) fun m entry _ _ => ?_
    exact .ite (fun _ => .step_bind rfl (.step_bind rfl .refuse)) fun _ => .pure trivial
  refine .check_bind hnew fun _ _ _ => ?_
  refine .check_bind (routineParameters_settles h.ready hps) fun typed _ htyped => ?_
  obtain ⟨typed, array⟩ := typed
  obtain ⟨rfl, harray⟩ := htyped
  refine .bind (declare_settles n _) fun _ s₁ _ => .get_bind (.modify_bind ?_)
  refine .bind (declareLocals_settles _ (fun p hp type htype => ?_) _) fun _ s₂ _ => ?_
  · have hlast : (lastArray? none ps).isSome = true :=
      lastArray?_isSome (.inr ⟨p, hp, type, htype⟩)
    cases hknown : lastArray? none ps with
    | none => simp [hknown] at hlast
    | some last =>
      rw [hknown] at harray
      cases harray
      rfl
  · exact .modify_bind (.pure _)

theorem closeRoutine_settles (routine : OpenRoutine) (kind : Tree) (n : String)
    (result body : Tree) : (closeRoutine routine kind (.text n) result body).Settles s :=
  .check_bind (Q := fun _ => True) (.step rfl trivial) fun _ _ _ => .modify_bind (.pure _)

theorem openRoutine_prepares (h : Prepared env s) {kind : String}
    (hrun : Runs (openRoutine (.text kind) (.text n) (.list (ps.map Parameter.toTree))
      result.toTree) s routine s') : Prepared (routineEnv env kind n ps result) s' := by
  obtain ⟨_, _, -, -, -, -, hcode, -⟩ := openRoutine_opened hrun
  refine ⟨(openRoutine_fits h.fits hrun).2, ?_, hcode⟩
  have hroutine : Env.Regular ((n, .routine kind ps result) :: env) := .cons trivial h.regular
  refine hroutine.append fun e he rest => ?_
  obtain ⟨p, -, rfl⟩ := List.mem_map.1 (List.mem_reverse.1 he)
  rw [Parameter.meaning]
  split <;> trivial

/-! ### Blocks -/

/-- The statements of a block can be checked where its declarations have been analysed. -/
theorem finishBlock_settles (h : Prepared env s) {ss : List Stmt}
    (hss : bodyIsRegular env ss = true) : (finishBlock (compoundTree ss)).Settles s := by
  have hready : Ready env { s with scopes := s.scopes.enter } :=
    ⟨h.fits.enter, fun _ => h.regular.known, h.code⟩
  refine .modify_bind (.check_bind (checkCompound_settles hready hss) fun _ _ _ => ?_)
  exact .modify_bind (.pure _)

/-- A declaration that is accepted leaves a state in which the next one can be analysed. -/
theorem declareItem_prepares (h : Prepared env s) {d : Decl} {type : Option DeclaredType}
    {before filled : Option Tree} (hbefore : Option.Rel (DeclaredType.KeptAs env) type before)
    (hd : d.isRegular env type = true) (hrun : Runs (declareItem before d.toTree) s filled s') :
    Prepared (d.extend env type) s' ∧
      Option.Rel (DeclaredType.KeptAs (d.extend env type)) (d.type? type) filled := by
  have hstoredAs : Option.Rel DeclaredType.StoredAs type before := by
    cases hbefore with
    | none => exact .none
    | some hkept => exact .some hkept.storedAs
  obtain ⟨-, hfits, -⟩ := declareItem_eachBody d h.fits hstoredAs hrun
  have hprepared : Env.Regular (d.extend env type) → Prepared (d.extend env type) s' :=
    fun hregular => ⟨hfits, hregular, (declareItem_keeps hrun).2.trans h.code⟩
  cases d with
  | const n declared value =>
    obtain ⟨_, -, rfl⟩ := runs_bind_pure.1 hrun
    refine ⟨hprepared (.cons ?_ h.regular), .none⟩
    cases declared with
    | array _ => trivial
    | named t =>
      have hknown : env.knowsType t = true := (Bool.and_eq_true _ _ ▸ hd).1
      rw [DeclaredType.constant, if_pos hknown]
      trivial
  | type n declared =>
    obtain ⟨_, hdeclare, rfl⟩ := runs_bind_pure.1 hrun
    refine ⟨hprepared ?_, .none⟩
    cases declared with
    | record fields =>
      obtain ⟨hnew, hnodup, hfields⟩ := Decl.isRegular_record.1 hd
      obtain ⟨infos, hinfos, -⟩ := runs_check_bind.1 hdeclare
      have hnamed := (declaredFields_settles h.ready fun f hf => (hfields f hf).1).1 infos hinfos
      refine .cons ⟨hnew, hnodup, fun f hf t ht => ?_⟩ h.regular
      obtain ⟨name, type⟩ := f
      cases type with
      | named _ =>
        obtain rfl := Option.some.inj ht
        exact hnamed _ hf _ rfl
      | array type =>
        obtain rfl := Option.some.inj ht
        exact (hfields _ hf).2
      | _ => exact absurd ht nofun
    | array type => exact .cons trivial h.regular
    | named _ | omitted => exact h.regular
  | var n declared initial sharesType =>
    obtain ⟨t, hdeclare, rfl⟩ := runs_bind_pure.1 hrun
    refine ⟨hprepared (.cons trivial h.regular), .some ?_⟩
    obtain ⟨t', hfilled, hdeclare⟩ := runs_check_bind.1 hdeclare
    obtain ⟨info, -, hdeclare⟩ := runs_check_bind.1 hdeclare
    obtain ⟨_, -, rfl⟩ := runs_bind_pure.1 hdeclare
    have hkept := (filledType_settles h.ready h.regular (sharedType_keptAs hbefore hd)).1 _ hfilled
    exact hkept.of_fewer (Env.Fewer.value n _)
  | routine kind n ps body result =>
    obtain ⟨routine, s₁, -, hrun⟩ := runs_bind.1 hrun
    obtain ⟨_, s₂, -, hrun⟩ := runs_bind.1 hrun
    obtain ⟨_, -, rfl⟩ := runs_bind_pure.1 hrun
    exact ⟨hprepared (.cons trivial h.regular), .none⟩

theorem declareList_prepares : ∀ (ds : List Decl) {env : Env} {s s' : Analysis}
    {type : Option DeclaredType} {before : Option Tree} {u : Unit}, Prepared env s →
    Option.Rel (DeclaredType.KeptAs env) type before → declsAreRegular env type ds = true →
    Runs (declareList before (declTrees ds)) s u s' → Prepared (declsEnv env type ds) s'
  | [], env, s, s', type, before, _, h, _, _, hrun => by
    obtain ⟨-, rfl⟩ := runs_pure.1 hrun
    exact h
  | d :: ds, env, s, s', type, before, _, h, hbefore, hds, hrun => by
    rw [declsAreRegular, Bool.and_eq_true] at hds
    obtain ⟨filled, s₁, hfirst, hrun⟩ := runs_bind.1 hrun
    obtain ⟨h₁, hfilled⟩ := declareItem_prepares h hbefore hds.1 hfirst
    exact declareList_prepares ds h₁ hfilled hds.2 hrun

end Steps

mutual

theorem analyzeBlock_settles : ∀ (b : Block) {env : Env} {s : Analysis}, Prepared env s →
    b.isRegular env = true → (analyzeBlock b.toTree).Settles s
  | .mk [] ss, env, s, h, hb => by
    rw [Block.isRegular, Bool.and_eq_true] at hb
    exact finishBlock_settles h hb.2
  | .mk (d :: ds) ss, env, s, h, hb => by
    rw [Block.isRegular, Bool.and_eq_true] at hb
    refine .bind (declareList_settles (d :: ds) h .none hb.1) fun _ s₁ hrun => ?_
    exact finishBlock_settles (declareList_prepares (d :: ds) h .none hb.1 hrun) hb.2

theorem declareItem_settles : ∀ (d : Decl) {env : Env} {s : Analysis}
    {type : Option DeclaredType} {before : Option Tree}, Prepared env s →
    Option.Rel (DeclaredType.KeptAs env) type before → d.isRegular env type = true →
    (declareItem before d.toTree).Settles s
  | .const n declared value, env, s, type, before, h, _, hd => by
    have hvalue : declared.isRegular env value = true := by
      cases declared with
      | named t => exact (Bool.and_eq_true _ _ ▸ hd).2
      | array t => exact hd
    exact .bind (declareConstant_settles h hvalue) fun _ _ _ => .pure _
  | .type n declared, env, s, type, before, h, _, hd =>
    .bind (declareType_settles h hd) fun _ _ _ => .pure _
  | .var n declared initial sharesType, env, s, type, before, h, hbefore, hd =>
    .bind (declareVariable_settles h (sharedType_keptAs hbefore hd) hd) fun _ _ _ => .pure _
  | .routine kind n ps body result, env, s, type, before, h, _, hd => by
    rw [Decl.isRegular, Bool.and_eq_true, List.all_eq_true] at hd
    refine .bind (openRoutine_settles h hd.1) fun routine s₁ hopen => ?_
    refine .bind (analyzeBlock_settles body (openRoutine_prepares h hopen) hd.2) fun code s₂ _ => ?_
    exact .bind (closeRoutine_settles routine _ n _ code) fun _ _ _ => .pure _

theorem declareList_settles : ∀ (ds : List Decl) {env : Env} {s : Analysis}
    {type : Option DeclaredType} {before : Option Tree}, Prepared env s →
    Option.Rel (DeclaredType.KeptAs env) type before → declsAreRegular env type ds = true →
    (declareList before (declTrees ds)).Settles s
  | [], _, _, _, _, _, _, _ => .pure _
  | d :: ds, env, s, type, before, h, hbefore, hds => by
    rw [declsAreRegular, Bool.and_eq_true] at hds
    refine .bind (declareItem_settles d h hbefore hds.1) fun filled s₁ hrun => ?_
    obtain ⟨h₁, hfilled⟩ := declareItem_prepares h hbefore hds.1 hrun
    exact declareList_settles ds h₁ hfilled hds.2

end

/-! ### Programs -/

end MiniPascal
