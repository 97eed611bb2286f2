import MiniPascal.Proofs.Analysis.Lookups
import MiniPascal.Proofs.Outlining
import MiniPascal.Proofs.Safety.Writing

/-!
# Checks of Expressions End by Design

Expressions of regular programs are checked without a fault, where the names that are visible have
entries that describe them.

* `typeOf_settles`: the type of an expression can be asked for.
-/

namespace MiniPascal

open Check Checking Typing

/-- Statements can be checked: the names are visible, no constant is of an unknown type, and no
block has been completed. -/
structure Ready (env : Env) (a : Analysis) : Prop where
  fits : env.Fits a.scopes a.scopes.current
  known : ∀ n, env.lookup n ≠ some .unknown
  code : a.code = none

theorem Ready.startsKnown {env : Env} {a : Analysis} (h : Ready env a) (d : Designator) :
    d.StartsKnown env := by
  cases d with
  | name n => exact h.known n
  | element base _ | field base _ => exact h.startsKnown base
  | call _ _ => trivial

section Checked

variable {env : Env} {a : Analysis} {α : Type} {Q : α → Prop}

variable {t : Tree} {n : String} {m : Meaning} {o : Operand} {arguments : List Expr}
  {expected : Tree} {f : Tree → Check α}

/-- A name that is looked up is visible or not, and its entry can be read. -/
theorem Ready.lookup_bind (h : Ready env a) (n : String)
    (hnone : env.lookup n = none → (f .null).Settles a Q)
    (hsome : ∀ m entry info, env.lookup n = some m → entry.isTruthy = true → m.Reads entry info →
      (f entry).Settles a Q) :
    (Check.lookup (.text n) >>= f).Settles a Q := by
  refine h.fits.lookup_bind n hnone fun m entry hm hentry => ?_
  obtain ⟨info, hr⟩ := hentry.reads fun hunknown => h.known n (hunknown ▸ hm)
  exact hsome m entry info hm hentry.isTruthy hr

/-! ### Names and literals -/

/-- A literal can be checked against a type. -/
theorem checkLiteral_settles {value : Tree} (he : expected.IsWord) (hvalue : Succeeds value.plain) :
    (checkLiteral expected value).Settles a fun _ => True := by
  have hbasic : ∃ basic, BasicType.ofTree? expected = .ok basic := by
    cases he <;> exact ⟨_, rfl⟩
  obtain ⟨basic, hbasic⟩ := hbasic
  refine .step_bind hbasic ?_
  cases basic with
  | none => exact .pure trivial
  | some b =>
    refine .ite (fun _ => ?_) fun _ => .pure trivial
    exact .shown_bind hvalue fun _ => .shown_bind he.plain fun _ => .refuse

/-! ### Elements of arrays -/

def AreDimensions (dims : List Tree) : Prop := ∃ ds : List (Nat × Nat), dims = ds.map dimensionTree

theorem succeeds_isBetween (low value high : Int) :
    Succeeds (Tree.isBetween (.int low) (.int value) (.int high)) := by
  refine Succeeds.bind ⟨_, rfl⟩ fun _ _ => ?_
  split
  · exact Succeeds.bind ⟨_, rfl⟩ fun _ _ => succeeds_pure _
  · exact succeeds_pure _

/-- An index can be compared with the first of the dimensions that remain. -/
theorem checkBounds_settles {dims : List Tree} (hdims : AreDimensions dims) (position : Nat)
    {value : Check (Option Tree)}
    (hvalue : value.Settles a fun v => ∀ t ∈ v, ∃ n : Int, t = .int n) :
    (checkBounds dims position value).Settles a fun rest => AreDimensions rest.1 := by
  obtain ⟨ds, rfl⟩ := hdims
  cases ds with
  | nil => exact .pure ⟨[], rfl⟩
  | cons d ds =>
    refine .step_bind rfl (hvalue.bind fun v hv => ?_)
    cases v with
    | none => exact .pure ⟨ds, rfl⟩
    | some t =>
      obtain ⟨n, rfl⟩ := hv t rfl
      refine .shown_bind (succeeds_isBetween _ _ _) fun inside => .ite (fun _ => ?_) fun _ => ?_
      · exact .shown_bind ⟨_, rfl⟩ fun _ => .shown_bind ⟨_, rfl⟩ fun _ =>
          .shown_bind ⟨_, rfl⟩ fun _ => .refuse_bind
      · exact .pure ⟨ds, rfl⟩

theorem indexValue_settles (index : Expr) {check : Check Code}
    (hcheck : check.Settles a Code.Countable) :
    (indexValue index.toTree check).Settles a fun v => ∀ t ∈ v, ∃ n : Int, t = .int n := by
  have hvalue : (do (← check).toTree.literalSum? : Check (Option Tree)).Settles a
      fun v => ∀ t ∈ v, ∃ n : Int, t = .int n := by
    refine hcheck.bind fun c hc => ?_
    obtain ⟨values, hvalues⟩ := hc
    cases values with
    | nil => exact .step (Except.bind_of_eq_ok hvalues) (by simp)
    | cons first others =>
      refine .step (Except.bind_of_eq_ok hvalues) fun t ht => ?_
      obtain rfl := Option.mem_some.1 ht
      exact ⟨_, rfl⟩
  cases index <;> exact hvalue

/-! ### Types -/

/-- The type of a name is the word for arrays only if the name is that of an array. -/
theorem Env.Fits.isArray_of_gives (h : a.Sees env)
    (hm : env.lookup n = some m) (ht : m.Gives (.text "array")) : env.isArray n = true := by
  generalize hword : Tree.text "array" = t at ht
  cases ht with
  | value =>
    obtain ⟨type, htype⟩ := Meaning.exists_array (m := m) (by rw [← hword]; rfl)
    simp [Env.isArray, Env.array?, hm, htype]
  | shown hparameter hs =>
    obtain rfl := Tree.text.inj hword
    cases m with
    | parameter type =>
      obtain rfl := TypeExpr.eq_named_of_plain (h.ne_array hm) (by decide) (.inr (by decide)) hs
      simp [Env.isArray, hm]
    | arrayParameter own known => simp [Env.isArray, Env.array?, hm, Meaning.array?]
    | routine kind ps result => exact absurd (Except.ok.inj hs) (by decide)
    | _ => cases hparameter

/-- The type of a chain can be asked for if its first operand allows it. It is the word for arrays
only if that operand is an array. -/
theorem chainType_settles (h : Ready env a) : ∀ {o : Operand} (rest : List Tree),
    o.isTypable env = true → (chainType (.list (o.toTree :: rest))).Settles a fun t =>
      t.IsWord ∧ (o.isArray env = false → ¬t.same (.text "array") = true)
  | .number _, _, _ => .pure ⟨.text _, fun _ => by simp [Tree.same, Tree.literalType]⟩
  | .literal s, _, _ => .pure ⟨.text _, fun _ => by
      by_cases hs : s.length = 1 <;> simp [Tree.same, Tree.literalType, hs]⟩
  | .truth _, _, _ => .pure ⟨.text _, fun _ => by simp [Tree.same, Tree.literalType]⟩
  | .designator (.name n), _, ho => by
    obtain ⟨m, hm⟩ := Option.isSome_iff_exists.1 (show (env.lookup n).isSome = true from ho)
    have hknown : m ≠ .unknown := fun hunknown => h.known n (hunknown ▸ hm)
    refine (factorType_settles h.fits hm hknown).mono fun t ht => ?_
    rcases ht with rfl | ht
    · exact ⟨.null, fun _ => Tree.not_same_null⟩
    · refine ⟨ht.isWord, fun hn hsame => ?_⟩
      cases ht.isWord with
      | null => exact Tree.not_same_null hsame
      | text s =>
        obtain rfl := Tree.same_text.1 hsame
        exact absurd (h.fits.isArray_of_gives hm ht) (Bool.eq_false_iff.1 hn)
  | .designator (.element base index), _, _ => by
    refine (elementType_settles h.fits (h.startsKnown (.element base index))).mono ?_
    rintro _ ⟨type, htype, rfl⟩
    refine ⟨.text _, fun ho hsame => ?_⟩
    have htype : base.root?.bind env.array? = some type := htype
    simp [Operand.isArray, htype, Tree.same_text.1 hsame] at ho
  | .designator (.field _ _), _, _ | .designator (.call _ _), _, _ | .group _, _, _
  | .negation _, _, _ => .pure ⟨.null, fun _ => Tree.not_same_null⟩
  | .binary left _ _, _, ho => chainType_settles h (o := left) _ ho

/-- What is called is looked up: it is visible or not. -/
theorem Ready.lookup_place_bind (h : Ready env a) (place : Designator)
    (hnone : (f .null).Settles a Q)
    (hsome : ∀ n (m : Meaning) entry, place = .name n → m.Describes n entry →
      (f entry).Settles a Q) :
    (Check.lookup place.toTree >>= f).Settles a Q := by
  cases place with
  | name n => exact h.fits.lookup_bind n (fun _ => hnone) fun m entry _ => hsome n m entry rfl
  | _ => exact hnone

theorem Meaning.Describes.exists_result {entry : Tree} (h : m.Describes n entry) :
    ∃ t, entry.get "return_type" = .ok t ∧ Succeeds t.plain := by
  cases h with
  | routine kind name ps result code locals => exact ⟨_, rfl, result.succeeds_render⟩
  | _ => exact ⟨_, rfl, _, rfl⟩

theorem resultType_settles (h : Ready env a) (place : Designator) :
    (resultType place.toTree).Settles a fun found => Succeeds found.toTree.plain := by
  refine h.lookup_place_bind place ?_ fun n m entry hplace hentry => ?_
  · exact .shown_bind place.succeeds_render fun _ => .refuse_bind
  subst hplace
  obtain ⟨type, htype, hplain⟩ := hentry.exists_result
  refine .ite (fun _ => .shown_bind (succeeds_plain_text n) fun _ => .refuse_bind) fun _ => ?_
  refine .step_bind htype (.ite (fun _ => .pure hplain) fun _ => .read_bind ?_)
  dsimp only [Designator.toTree]
  split
  · exact .pure hplain
  · exact .pure hplain

/-- A type that can be shown. It is the word for arrays only for an array. -/
def IsTypeOf (isArray : Bool) (found : ValueType) : Prop :=
  Succeeds found.toTree.plain ∧ (isArray = false → ¬found.isNamed "array" = true)

theorem typeOf_chain_settles (h : Ready env a) (ho : o.isTypable env = true) :
    (do return .known (← chainType (.list [o.toTree])) : Check ValueType).Settles a
      (IsTypeOf (o.isArray env)) :=
  (chainType_settles h [] ho).bind fun _ ht => .pure ⟨ht.1.plain, ht.2⟩

theorem typeOf_side_settles (h : Ready env a) (ho : o.isTypable env = true)
    (hchain : o.isChain = false) :
    (typeOf false o.toTree).Settles a fun found => Succeeds found.toTree.plain := by
  have hfirst := (typeOf_chain_settles h ho).mono fun _ => And.left
  cases o with
  | designator place =>
    cases place with
    | name n | element base index => exact hfirst
    | field base f => exact .pure ⟨_, rfl⟩
    | call base arguments => exact resultType_settles h base
  | binary => exact absurd hchain nofun
  | _ => exact hfirst

theorem typeOf_first_settles (h : Ready env a) (ho : o.isTypable env = true) :
    (typeOf false (.expression o.toTree .null .null)).Settles a (IsTypeOf (o.isArray env)) := by
  have hfirst := typeOf_chain_settles h ho
  cases o with
  | designator place =>
    cases place with
    | name n | element base index => exact hfirst
    | _ => exact .pure ⟨⟨_, rfl⟩, fun _ => Tree.not_same_null⟩
  | _ => exact hfirst

theorem typeOf_sides_settles (h : Ready env a) {left right : Operand} {operator : String}
    (htypable : (Expr.compare left operator right).isTypable env = true) {f : Check α}
    (hf : f.Settles a Q) : Settles (do
      let l ← typeOf false left.toTree
      let r ← typeOf false right.toTree
      if !l.agrees r then
        refuse (.comparison (← l.toTree.plain) (← r.toTree.plain) (← (Tree.text operator).plain))
      f) a Q := by
  simp only [Expr.isTypable, Bool.and_eq_true, Bool.not_eq_true'] at htypable
  obtain ⟨⟨hleft, hleft'⟩, hright, hright'⟩ := htypable
  refine (typeOf_side_settles h hleft hleft').bind fun l hl => ?_
  refine (typeOf_side_settles h hright hright').bind fun r hr => .ite (fun _ => ?_) fun _ => hf
  exact .shown_bind hl fun _ => .shown_bind hr fun _ =>
    .shown_bind (succeeds_plain_text operator) fun _ => .refuse_bind

theorem typeOf_settles (h : Ready env a) {e : Expr} (he : e.isTypable env = true) :
    (typeOf false e.toTree).Settles a (IsTypeOf (e.first.isArray env)) := by
  cases e with
  | operand o => exact typeOf_first_settles h he
  | compare left operator right =>
    refine .ite (fun _ => ?_) fun _ => ?_
    · refine typeOf_sides_settles h he (.pure ⟨⟨_, rfl⟩, fun _ hsame => ?_⟩)
      exact absurd (Tree.same_text.1 hsame) (by decide)
    · simp only [Expr.isTypable, Bool.and_eq_true] at he
      exact typeOf_first_settles h he.1.1

/-! ### Calls -/

/-- The tree is that of a parameter of a routine. Array types are kept as a word. -/
inductive IsParameter : Tree → Prop
  | mk (name : String) {type : Tree} (hplain : Succeeds type.plain)
      (harray : ∀ dimensions element initial, type ≠ .arrayType dimensions element initial) :
    IsParameter (.dict [("name", .text name), ("type", type)])

theorem Parameter.isParameter (p : Parameter) :
    IsParameter (.dict [("name", p.pair.1), ("type", p.pair.2)]) := by
  obtain ⟨name, type, mode⟩ := p
  cases type with
  | named n => exact .mk name (TypeExpr.named n).succeeds_render nofun
  | array type => exact .mk name (succeeds_plain_text _) nofun
  | record fields => exact .mk name (TypeExpr.record fields).succeeds_render nofun
  | omitted => exact .mk name TypeExpr.omitted.succeeds_render nofun

/-- The parameters of a routine go with the arguments of a call. -/
def ArePaired (env : Env) (pairs : List (Tree × Tree)) : Prop :=
  ∀ x ∈ pairs, IsParameter x.1 ∧ ∃ e : Expr, x.2 = e.toTree ∧ e.isTypable env = true

theorem mem_exprTrees {t : Tree} : ∀ {es : List Expr}, t ∈ exprTrees es → ∃ e ∈ es, t = e.toTree
  | [], h => absurd h List.not_mem_nil
  | e :: es, h => by
    rcases List.mem_cons.1 h with rfl | h
    · exact ⟨e, List.mem_cons_self, rfl⟩
    · obtain ⟨e', he', rfl⟩ := mem_exprTrees h
      exact ⟨e', List.mem_cons_of_mem e he', rfl⟩

theorem pairArguments_settles {kind : String} {ps : List Parameter} {result code locals : Tree}
    (harguments : ∀ e ∈ arguments, e.isTypable env = true) {call : Tree}
    (hcall : call.part "arguments" = .ok (.list (exprTrees arguments))) :
    (pairArguments (Declaring.routineInfo (.text kind) result code locals (ps.map Parameter.pair))
      call).Settles a fun paired => ∀ pairs, paired = .inl pairs → ArePaired env pairs := by
  refine .step_bind rfl (.step_bind rfl (.step_bind hcall (.step_bind rfl ?_)))
  refine .ite (fun _ => .pure ?_) fun _ => .pure nofun
  rintro pairs hpairs ⟨parameter, argument⟩ hmem
  obtain rfl := Sum.inl.inj hpairs
  obtain ⟨hparameter, hargument⟩ := List.of_mem_zip hmem
  constructor
  · obtain ⟨pair, hpair, rfl⟩ := List.mem_map.1 hparameter
    obtain ⟨p, -, rfl⟩ := List.mem_map.1 hpair
    exact p.isParameter
  · obtain ⟨e, he, rfl⟩ := mem_exprTrees hargument
    exact ⟨e, rfl, harguments e he⟩

theorem foldedType_settles (h : Succeeds t.plain) : (foldedType t).Settles a fun _ => True :=
  .shown_bind h fun _ => .pure trivial

theorem checkFunctionArguments_settles (h : Ready env a) {name : Tree}
    (hname : Succeeds name.plain) :
    ∀ {pairs : List (Tree × Tree)}, ArePaired env pairs →
      (checkFunctionArguments name pairs).Settles a fun _ => True
  | [], _ => .pure trivial
  | (parameter, argument) :: rest, hpairs => by
    obtain ⟨⟨hparameter, e, he, htypable⟩, hrest⟩ := List.forall_mem_cons.1 hpairs
    obtain rfl : argument = e.toTree := he
    cases hparameter with
    | mk shown hplain _ =>
      refine .step_bind rfl ((typeOf_settles h htypable).bind fun found hfound => ?_)
      refine (foldedType_settles hfound.1).bind fun _ _ => ?_
      refine (foldedType_settles hplain).bind fun _ _ => .ite (fun _ => ?_) fun _ => ?_
      · refine .shown_bind hname fun _ => .step_bind rfl ?_
        refine .shown_bind (succeeds_plain_text _) fun _ => .shown_bind hplain fun _ => ?_
        exact .shown_bind hfound.1 fun _ => .refuse_bind
      · exact checkFunctionArguments_settles h hname hrest

theorem checkFunctionCall_settles (h : Ready env a) {place : Designator}
    (harguments : ∀ e ∈ arguments, e.isTypable env = true)
    (hwritable : (Designator.call place arguments).isWritable = true) :
    (checkFunctionCall (Designator.call place arguments).toTree).Settles a Code.Countable := by
  have hshown := place.succeeds_render
  refine .step_bind rfl (h.lookup_place_bind place ?_ fun n m entry _ hentry => ?_)
  · exact .shown_bind hshown fun _ => .refuse_bind
  refine .ite (fun _ => .shown_bind hshown fun _ => .refuse_bind) fun _ => ?_
  obtain ⟨kind, hkind⟩ := hentry.succeeds_get "kind"
  refine .step_bind hkind ?_
  refine .ite (fun _ => .shown_bind hshown fun _ => .refuse_bind) fun hfunction => ?_
  obtain ⟨c, hc, hcounted⟩ := Designator.generates hwritable rfl
  cases hentry with
  | routine kind name ps result code locals =>
    refine (pairArguments_settles harguments rfl).bind fun paired hpaired => ?_
    cases paired with
    | inl pairs =>
      refine (checkFunctionArguments_settles h hshown (hpaired pairs rfl)).bind fun _ _ => ?_
      exact .generate h.code hc hcounted
    | inr counts => exact .shown_bind hshown fun _ => .refuse_bind
  | _ =>
    obtain rfl := Except.ok.inj hkind
    exact absurd rfl hfunction

/-! ### Expressions -/

theorem Operand.isAccess_of_isFactor {o : Operand} (h : o.isFactor = true) :
    o.isAccess = false := by
  cases o with
  | designator place => cases place <;> first | rfl | cases h
  | _ => rfl

mutual

theorem Expr.negatesAccess_of_isCheckable : ∀ {e : Expr}, e.isCheckable env = true →
    e.negatesAccess = false
  | .operand o, h => Operand.negatesAccess_of_isCheckable (o := o) h
  | .compare left operator right, h => by
    rw [Expr.isCheckable, Bool.and_eq_true, Bool.and_eq_true] at h
    exact Bool.or_eq_false_iff.2 ⟨Operand.negatesAccess_of_isCheckable h.2.1,
      Operand.negatesAccess_of_isCheckable h.2.2⟩

theorem Operand.negatesAccess_of_isCheckable : ∀ {o : Operand}, o.isCheckable env = true →
    o.negatesAccess = false
  | .number _, _ | .literal _, _ | .truth _, _ | .designator _, _ => rfl
  | .group inner, h => Expr.negatesAccess_of_isCheckable (e := inner) h
  | .negation inner, h => by
    rw [Operand.isCheckable, Bool.and_eq_true] at h
    exact Bool.or_eq_false_iff.2 ⟨Operand.isAccess_of_isFactor h.1,
      Operand.negatesAccess_of_isCheckable (o := inner) h.2⟩
  | .binary left operator right, h => by
    rw [Operand.isCheckable, Bool.and_eq_true] at h
    exact Bool.or_eq_false_iff.2 ⟨Operand.negatesAccess_of_isCheckable h.1,
      Operand.negatesAccess_of_isCheckable h.2⟩

end

theorem checkExpression_element (expected : Tree) (base : Designator) (index : Expr) :
    checkExpression expected (Designator.element base index).toTree = (do
      let dimensions ← accessDimensions (Designator.element base index).toTree
      let (rest, position) ← checkIndices dimensions 0 base.toTree
      let _ ← checkBounds rest position
        (indexValue index.toTree (checkExpression (.text "integer") index.toTree))
      return .nothing) := by
  cases index <;> rfl

theorem checkIndices_element (dimensions : List Tree) (position : Nat) (base : Designator)
    (index : Expr) :
    checkIndices dimensions position (Designator.element base index).toTree = (do
      let (rest, next) ← checkIndices dimensions position base.toTree
      checkBounds rest next
        (indexValue index.toTree (checkExpression (.text "integer") index.toTree))) := by
  cases index <;> rfl

theorem finishFieldAccess_settles (h : Ready env a) {type : Tree} (he : expected.IsWord)
    {d : Designator} {f : String} (htype : d.IsField env f type)
    (hwritable : (Designator.field d f).isWritable = true) :
    (finishFieldAccess expected (.text f) d.toTree type).Settles a Code.Countable := by
  obtain ⟨c, hc, hcounted⟩ := Designator.generates hwritable rfl
  obtain ⟨_, -, τ, -, rfl⟩ := htype
  refine .ite (fun _ => ?_) fun _ => .generate h.code hc hcounted
  exact .shown_bind he.plain fun _ => .step_bind rfl (.step_bind rfl .refuse_bind)

theorem checkTerms_settles {o : Operand}
    (hplain : ∀ expected : Tree, expected.IsWord →
      (checkExpression expected o.toTree).Settles a Code.Countable)
    (hfield : ∀ base f, o = .designator (.field base f) →
      (checkFieldAccess expected (.text f) base.toTree).Settles a Code.Countable)
    (he : expected.IsWord) {rest : List Tree}
    (hrest : (checkTerms expected rest).Settles a fun _ => True) :
    (checkTerms expected (o.toTree :: rest)).Settles a fun _ => True := by
  have hfirst := (hplain expected he).bind fun _ _ => hrest
  cases o with
  | designator place =>
    cases place with
    | name n | element base index => exact hfirst
    | field base f => exact (hfield base f rfl).bind fun _ _ => hrest
    | call base arguments =>
      have hshown : Succeeds (Designator.call base arguments).toTree.plain :=
        Designator.succeeds_render _
      exact Settles.bind (P := fun _ => False)
        (.shown_bind hshown fun _ => .refuse) fun _ hfalse => absurd hfalse id
  | _ => exact hfirst

/-- A factor that is a literal is checked without a fault. -/
theorem checkLiteralFactor_settles (h : Ready env a) {value : Tree} (he : expected.IsWord)
    (hnull : value.isNull = false) (hvalue : Succeeds value.plain)
    (hcode : EndsAs false (Tree.factor value .null .null (.bool false)).generate Code.Countable) :
    (checkExpression expected (.factor value .null .null (.bool false))).Settles a
      Code.Countable := by
  have houtline : Succeeds (Tree.factor value .null .null (.bool false)).outline := by
    rw [Tree.outline, hnull]
    exact succeeds_pure _
  obtain ⟨c, hc, hcounted⟩ := hcode
  have hnever {p : Prop} (htrue : false = true) : p := absurd htrue Bool.false_ne_true
  refine .shown_bind houtline fun _ => .ite (fun htrue => hnever htrue) fun _ => ?_
  refine .ite (fun htrue => hnever htrue) fun _ => .ite (fun htrue => ?_) fun _ => ?_
  · rw [hnull] at htrue
    exact absurd htrue Bool.false_ne_true
  · exact (checkLiteral_settles he hvalue).bind fun _ _ => .generate h.code hc hcounted

mutual

/-- An expression that can be checked and written as code is checked without a fault. -/
theorem checkExpression_settles (h : Ready env a) : ∀ {e : Expr}, e.isCheckable env = true →
    e.isWritable = true → ∀ {expected : Tree}, expected.IsWord →
    (checkExpression expected e.toTree).Settles a Code.Countable
  | .operand o, hcheck, hwrite, expected, he => checkOperand_settles h (o := o) hcheck hwrite he
  | .compare left operator right, hcheck, hwrite, expected, he => by
    obtain ⟨c, hc, hcounted⟩ := Expr.generates hwrite
    rw [Expr.isCheckable, Bool.and_eq_true, Bool.and_eq_true] at hcheck
    rw [Expr.isWritable, Bool.and_eq_true] at hwrite
    refine .ite (fun _ => typeOf_sides_settles h hcheck.1 ?_) fun _ => ?_
    · refine (checkOperand_settles h hcheck.2.1 hwrite.1 .null).bind fun _ _ => ?_
      refine (checkOperand_settles h hcheck.2.2 hwrite.2 .null).bind fun _ _ => ?_
      refine (Settles.generate h.code hc hcounted).bind fun _ hcode => ?_
      refine .ite (fun _ => ?_) fun _ => ?_
      · exact .shown_bind he.plain fun _ => .refuse_bind
      · exact .pure hcode
    · exact checkOperand_settles h hcheck.2.1 hwrite.1 he
termination_by structural e => e

theorem checkOperand_settles (h : Ready env a) : ∀ {o : Operand}, o.isCheckable env = true →
    o.isWritable = true → ∀ {expected : Tree}, expected.IsWord →
    (checkExpression expected o.toTree).Settles a Code.Countable
  | .number v, _, hwrite, _, he =>
    checkLiteralFactor_settles h he rfl ⟨_, rfl⟩ (Operand.generates (o := .number v) hwrite)
  | .literal s, _, hwrite, _, he =>
    checkLiteralFactor_settles h he rfl ⟨_, rfl⟩ (Operand.generates (o := .literal s) hwrite)
  | .truth v, _, hwrite, _, he =>
    checkLiteralFactor_settles h he rfl ⟨_, rfl⟩ (Operand.generates (o := .truth v) hwrite)
  | .designator (.name n), _, hwrite, expected, he => by
    obtain ⟨c, hc, hcounted⟩ := Operand.generates hwrite
    have hn : (Tree.text n).isTruthy = true := hwrite
    refine .shown_bind ⟨_, rfl⟩ fun _ => .ite (fun htrue => absurd htrue nofun) fun _ => ?_
    refine .ite (fun _ => ?_) fun hfalse => absurd hn hfalse
    have hvariable := (checkVariable_decides h.fits (h.known n) he).settles
    exact hvariable.bind fun _ _ => .generate h.code hc hcounted
  | .designator (.element base index), hcheck, hwrite, expected, he => by
    have hcheck : (Designator.element base index).isCheckable env = true := hcheck
    have hwrite : (Designator.element base index).isWritable = true := hwrite
    rw [Designator.isCheckable, Bool.and_eq_true] at hcheck
    rw [Designator.isWritable, Bool.and_eq_true, Bool.and_eq_true] at hwrite
    change (checkExpression expected (Designator.element base index).toTree).Settles a _
    rw [checkExpression_element]
    refine (accessDimensions_settles h.fits (h.startsKnown (.element base index))).bind ?_
    rintro dims ⟨type, -, hdims⟩
    refine (checkIndices_settles h hcheck.1 hwrite.1.2 ⟨_, hdims⟩ 0).bind fun rest hrest => ?_
    have hindex := checkExpression_settles h hcheck.2 hwrite.2 (.text "integer")
    refine (checkBounds_settles hrest _ (indexValue_settles index hindex)).bind fun _ _ => ?_
    exact .pure ⟨_, rfl⟩
  | .designator (.field base f), hcheck, hwrite, expected, he =>
    checkFieldAccess_settles h (d := base) hcheck hwrite .null f
  | .designator (.call base arguments), hcheck, hwrite, expected, he => by
    refine checkFunctionCall_settles h ?_ hwrite
    simpa [Operand.isCheckable] using hcheck
  | .group inner, hcheck, hwrite, expected, he => by
    have houtline := Operand.succeeds_outline rfl (Operand.negatesAccess_of_isCheckable hcheck)
    refine .shown_bind houtline fun _ => .ite (fun _ => ?_) fun hfalse => ?_
    · have hinner := checkExpression_settles h (e := inner) hcheck hwrite he
      cases inner <;> exact hinner
    · exact absurd inner.isTruthy_toTree hfalse
  | .negation inner, hcheck, hwrite, expected, he => by
    have houtline := Operand.succeeds_outline rfl (Operand.negatesAccess_of_isCheckable hcheck)
    rw [Operand.isCheckable, Bool.and_eq_true] at hcheck
    refine .shown_bind houtline fun _ => .ite (fun _ => ?_) fun hfalse => ?_
    · have hinner := checkOperand_settles h (o := inner) hcheck.2 hwrite he
      cases inner with
      | designator place => cases place <;> first | exact hinner | exact absurd hcheck.1 nofun
      | binary => exact absurd hcheck.1 nofun
      | _ => exact hinner
    · exact absurd inner.isTruthy_toTree hfalse
  | .binary left operator right, hcheck, hwrite, expected, he => by
    obtain ⟨c, hc, hcounted⟩ := Operand.generates hwrite
    have houtline := Operand.succeeds_outline rfl (Operand.negatesAccess_of_isCheckable hcheck)
    rw [Operand.isCheckable, Bool.and_eq_true] at hcheck
    rw [Operand.isWritable, Bool.and_eq_true] at hwrite
    have hright : (checkTerms expected [right.toTree]).Settles a fun _ => True :=
      checkTerms_settles (fun _ he => checkOperand_settles h hcheck.2 hwrite.2 he)
        (checkFieldOperand_settles h hcheck.2 hwrite.2 he) he (.pure trivial)
    have hoperator :
        (checkTerms expected [.text operator, right.toTree]).Settles a fun _ => True := by
      have hloose : (checkLooseTerm (.text operator)).Settles a fun _ => True :=
        .ite (fun _ => .shown_bind (succeeds_plain_text operator) fun _ => .refuse) fun _ =>
          .pure trivial
      exact hloose.bind fun _ _ => hright
    refine .shown_bind houtline fun _ => Settles.bind (P := fun _ => True) ?_ fun _ _ => ?_
    · exact checkTerms_settles (fun _ he => checkOperand_settles h hcheck.1 hwrite.1 he)
        (checkFieldOperand_settles h hcheck.1 hwrite.1 he) he hoperator
    · exact .generate h.code hc hcounted
termination_by structural o => o

theorem checkFieldOperand_settles (h : Ready env a) : ∀ {o : Operand}, o.isCheckable env = true →
    o.isWritable = true → ∀ {expected : Tree}, expected.IsWord → ∀ base f,
    o = .designator (.field base f) →
    (checkFieldAccess expected (.text f) base.toTree).Settles a Code.Countable
  | .designator (.field base f), hcheck, hwrite, _, he, _, _, rfl =>
    checkFieldAccess_settles h (d := base) hcheck hwrite he f
termination_by structural o => o

theorem checkIndices_settles (h : Ready env a) : ∀ {d : Designator}, d.isCheckable env = true →
    d.isWritable = true → ∀ {dims : List Tree}, AreDimensions dims → ∀ position : Nat,
    (checkIndices dims position d.toTree).Settles a fun rest => AreDimensions rest.1
  | .element base index, hcheck, hwrite, dims, hdims, position => by
    rw [Designator.isCheckable, Bool.and_eq_true] at hcheck
    rw [Designator.isWritable, Bool.and_eq_true, Bool.and_eq_true] at hwrite
    rw [checkIndices_element]
    refine (checkIndices_settles h hcheck.1 hwrite.1.2 hdims position).bind fun rest hrest => ?_
    have hindex := checkExpression_settles h hcheck.2 hwrite.2 (.text "integer")
    exact checkBounds_settles hrest _ (indexValue_settles index hindex)
  | .name _, _, _, _, hdims, _ | .field _ _, _, _, _, hdims, _ | .call _ _, _, _, _, hdims, _ =>
    .pure hdims
termination_by structural d => d

theorem checkFieldAccess_settles (h : Ready env a) : ∀ {d : Designator}, d.isCheckable env = true →
    d.isWritable = true → ∀ {expected : Tree}, expected.IsWord → ∀ f : String,
    (checkFieldAccess expected (.text f) d.toTree).Settles a Code.Countable
  | .name n, _, hwrite, expected, he, f =>
    (variableField_settles h.fits (h.known n) f).bind fun _ htype =>
      finishFieldAccess_settles h he htype hwrite
  | .element base index, hcheck, hwrite, expected, he, f => by
    have hfield : (Designator.field (.element base index) f).isWritable = true := hwrite
    rw [Designator.isCheckable, Bool.and_eq_true] at hcheck
    rw [Designator.isWritable, Bool.and_eq_true, Bool.and_eq_true] at hwrite
    rw [checkFieldAccess_element]
    refine (accessDimensions_settles h.fits (h.startsKnown (.element base index))).bind ?_
    rintro dims ⟨type, -, hdims⟩
    refine (checkIndices_settles h hcheck.1 hwrite.1.2 ⟨_, hdims⟩ 0).bind fun rest hrest => ?_
    have hindex := checkExpression_settles h hcheck.2 hwrite.2 (.text "integer")
    refine (checkBounds_settles hrest _ (indexValue_settles index hindex)).bind fun _ _ => ?_
    exact (elementField_settles h.fits (h.startsKnown base) f).bind fun _ htype =>
      finishFieldAccess_settles h he htype hfield
  | .field base inner, _, hwrite, expected, he, f =>
    (nestedField_settles h.fits (h.startsKnown base) inner f).bind fun _ htype =>
      finishFieldAccess_settles h he htype hwrite
  | .call _ _, _, _, _, _, _ => .refuse
termination_by structural d => d

end

end Checked

end MiniPascal
