import MiniPascal.Proofs.Analysis.Lookups
import MiniPascal.Proofs.Analysis.Programs

/-!
# Types of Assignments

Which of the assignments that an analysis accepts are of one type on both sides.

An analysis compares the types of most operands with that of the place that is assigned to, but not
of all of them. It never compares

* elements of arrays, unless they are assigned to an element, alone or as the first operand;
* fields of records and results of functions that are assigned as they are;
* truth values where integers are expected, and texts where a character is;
* anything with the type of a record variable or of a parameter, or of a field that is an array;
* literals with types that are not basic.

It also takes a parameter that is an array to have the type of the last one that is, and passes over
compound statements that stand among others.

* `analyze_assignments`: in a program that is accepted these are of one type on both sides.
-/

namespace MiniPascal

open Check Checking Typing

/-! ### Operands that are compared -/

/-- Whether a designator that is an operand is compared with a type. A field is compared only in a
chain, where calls are refused. -/
def Designator.isCompared (env : Env) (alone : Bool) : Designator → Bool
  | .name n => !n.isEmpty && (env.static? n).isSome
  | .element _ _ => false
  | .field base _ => !alone && base.isKnown env
  | .call _ _ => !alone

mutual

/-- Whether all operands of an expression are compared with the type of the given name. -/
def Expr.isCompared (env : Env) (type : String) : Expr → Bool
  | .operand value => value.isCompared env type true
  | .compare _ operator _ => !operator.isEmpty

/-- Whether an operand, which stands alone or in a chain, is compared with the type of the given
name. -/
def Operand.isCompared (env : Env) (type : String) (alone : Bool) : Operand → Bool
  | .number _ => isBasic type
  | .literal s => isBasic type && (type != "char" || s.length == 1)
  | .truth _ => isBasic type && type != "integer"
  | .designator place => place.isCompared env alone
  | .group inner => inner.isCompared env type
  | .negation inner => inner.isFactor && inner.isCompared env type true
  | .binary left _ right => left.isCompared env type false && right.isCompared env type false

end

/-- Whether the operands of what is assigned to an element are compared with the type of the given
name. The type of the first one is asked for. -/
def Operand.isComparedFirst (env : Env) (type : String) : Operand → Bool
  | .truth _ => false
  | .designator (.name n) => !n.isEmpty && (env.static? n).isSome
  | .designator (.element base index) => (Designator.element base index).isKnown env
  | .binary left _ right => left.isComparedFirst env type && right.isCompared env type false
  | _ => true

/-- Whether the operands of a value that is assigned to an element are compared with its type. -/
def Expr.isComparedFirst (env : Env) (type : String) : Expr → Bool
  | .operand value => value.isComparedFirst env type
  | .compare _ operator _ => !operator.isEmpty

/-- Whether a value, if it is a name, has a static type. -/
def Expr.isTypedName (env : Env) : Expr → Bool
  | .operand (.designator (.name n)) => (env.static? n).isSome
  | .operand _ => true
  | .compare _ operator _ => !operator.isEmpty

/-- Whether all operands of an assignment are compared with the type of its target. -/
def assignmentIsCompared (env : Env) (target : Designator) (value : Expr) : Bool :=
  target.isFaithful env &&
    match target, target.static? env with
    | .name n, some (.named type) =>
      isBasic type && ((env.lookup n) matches some (.value _)) && value.isCompared env type
    | .name _, some (.array _ _) => value.isTypedName env
    | .element _ _, some (.named type) => !isMark type && value.isComparedFirst env type
    | .field _ _, some (.named type) => !isMark type && value.isCompared env type
    | _, _ => false

section Checked

variable {a : Analysis} {env : Env}

/-! ### Operands -/

def Operand.isSelected : Operand → Bool
  | .designator (.field _ _) => true
  | .designator (.call _ _) => true
  | _ => false

/-- The operand of a chain has been checked with success. -/
inductive TermPasses (a : Analysis) (expected : Tree) : Operand → Prop
  | plain {o : Operand} (ho : o.isSelected = false) {c : Code}
      (h : checkExpression expected o.toTree a = .ok c) : TermPasses a expected o
  | field {base : Designator} {f : String} {c : Code}
      (h : checkFieldAccess expected (.text f) base.toTree a = .ok c) :
    TermPasses a expected (.designator (.field base f))

variable {expected : Tree} {c : Code} {e operator element : String}
  {right left o : Operand} {rest : List Tree}

/-- The operands of a chain are checked one after the other, and calls are refused. -/
theorem checkTerms_cons_eq_ok {u : Unit} (h : checkTerms expected (o.toTree :: rest) a = .ok u) :
    TermPasses a expected o ∧ ∃ u', checkTerms expected rest a = .ok u' := by
  have hplain : ∀ {o : Operand}, o.isSelected = false →
      (do let _ ← checkExpression expected o.toTree; checkTerms expected rest : Check Unit) a =
        .ok u → TermPasses a expected o ∧ ∃ u', checkTerms expected rest a = .ok u' := by
    intro o ho h
    obtain ⟨c, hc, h⟩ := bind_eq_ok.1 h
    exact ⟨.plain ho hc, u, h⟩
  cases o with
  | designator place =>
    cases place with
    | name n | element base index => exact hplain rfl h
    | field base f =>
      obtain ⟨c, hc, h⟩ := bind_eq_ok.1 h
      exact ⟨.field hc, u, h⟩
    | call base arguments =>
      exact absurd h ((Stops.first (.bind fun _ => .refuse)) _)
  | number _ | literal _ | truth _ | group _ | negation _ | binary _ _ _ => exact hplain rfl h

theorem checkExpression_binary_eq_ok
    (h : checkExpression expected (Operand.binary left operator right).toTree a = .ok c) :
    TermPasses a expected left ∧ TermPasses a expected right := by
  obtain ⟨_, -, h⟩ := bind_eq_ok.1 h
  obtain ⟨u, hchain, -⟩ := bind_eq_ok.1 h
  obtain ⟨hleft, _, hrest⟩ := checkTerms_cons_eq_ok hchain
  obtain ⟨_, -, hrest⟩ := bind_eq_ok.1 hrest
  exact ⟨hleft, (checkTerms_cons_eq_ok hrest).1⟩

/-- A literal that is compared belongs to the expected basic type. -/
theorem checkLiteral_ensures (he : isBasic e = true) (value : Tree) :
    (checkLiteral (.text e) value).Ensures a fun _ =>
      ∃ b : BasicType, e = b.name ∧ b.admits value = true := by
  obtain ⟨b, hb⟩ := Option.isSome_iff_exists.1 he
  refine .bind fun basic hbasic => ?_
  obtain rfl : BasicType.ofName? e = basic := Except.ok.inj hbasic
  rw [hb]
  refine .ite (fun _ => ?_) fun hadmits => ?_
  · exact .of_stops (by simp)
  · exact .pure ⟨b, ofName?_eq_some hb, by simpa using hadmits⟩

theorem checkExpression_literal_ensures (he : isBasic e = true) (value : Tree)
    (hvalue : value.isNull = false) :
    (checkExpression (.text e) (.factor value .null .null (.bool false))).Ensures a fun _ =>
      ∃ b : BasicType, e = b.name ∧ b.admits value = true := by
  refine .bind fun _ _ => .ite (fun h => absurd h Bool.false_ne_true) fun _ => ?_
  refine .ite (fun h => absurd h Bool.false_ne_true) fun _ => .ite (fun h => ?_) fun _ => ?_
  · rw [hvalue] at h
    exact absurd h Bool.false_ne_true
  · exact .bind fun u hu _ _ => checkLiteral_ensures he value u hu

theorem checkExpression_name_eq_ok {n : String} (hn : n.isEmpty = false)
    (h : checkExpression expected (Operand.designator (.name n)).toTree a = .ok c) :
    ∃ u, checkVariable expected (.text n) a = .ok u := by
  obtain ⟨_, -, h⟩ := bind_eq_ok.1 h
  have htruthy : (Tree.text n).isTruthy = true := by simp [Tree.isTruthy, hn]
  rw [if_neg (by decide), if_pos htruthy] at h
  obtain ⟨u, hu, -⟩ := bind_eq_ok.1 h
  exact ⟨u, hu⟩

theorem checkExpression_group_eq_ok {inner : Expr}
    (h : checkExpression expected (Operand.group inner).toTree a = .ok c) :
    checkExpression expected inner.toTree a = .ok c := by
  obtain ⟨_, -, h⟩ := bind_eq_ok.1 h
  cases inner <;> exact h

theorem checkExpression_negation_eq_ok {inner : Operand} (hinner : inner.isFactor = true)
    (h : checkExpression expected (Operand.negation inner).toTree a = .ok c) :
    checkExpression expected inner.toTree a = .ok c := by
  obtain ⟨_, -, h⟩ := bind_eq_ok.1 h
  cases inner with
  | designator place => cases place <;> first | exact h | exact absurd hinner Bool.false_ne_true
  | binary _ _ _ => exact absurd hinner Bool.false_ne_true
  | _ => exact h

/-- A comparison passes only where a truth value is expected. -/
theorem checkExpression_compare_ensures (hoperator : operator.isEmpty = false) :
    (checkExpression (.text e) (Expr.compare left operator right).toTree).Ensures a fun _ =>
      e = "boolean" := by
  have htruthy : (Tree.text operator).isTruthy = true := by simp [Tree.isTruthy, hoperator]
  refine .ite (fun _ => ?_) fun hfalse => absurd htruthy hfalse
  refine .bind fun _ _ => .bind fun _ _ => .ite (fun _ => ?_) fun _ => ?_
  · exact .of_stops (by simp)
  refine .bind fun _ _ => .bind fun _ _ => .bind fun _ _ => .ite (fun _ => ?_) fun hboolean => ?_
  · exact .of_stops (by simp)
  · exact .pure (by simpa [Tree.isNull, Tree.isTextOf] using hboolean)

/-- Only fields and calls are treated differently in a chain. -/
theorem Operand.isCompared_of_not_isSelected (ho : o.isSelected = false) (halone : Bool) :
    o.isCompared env e halone = o.isCompared env e true := by
  cases o with
  | designator place => cases place <;> first | rfl | exact absurd ho nofun
  | _ => rfl

theorem StaticType.eq_named_of_word {τ : StaticType} (he : isMark e = false) (h : τ.word = e) :
    τ = .named e := by
  cases τ with
  | named n => rw [← h, StaticType.word]
  | array _ _ =>
    obtain rfl : "array" = e := h
    exact absurd he (by decide)

theorem Designator.exists_named_of_isKnown {place : Designator} (h : place.isKnown env = true) :
    ∃ type, place.static? env = some (.named type) ∧ place.isFaithful env = true := by
  rw [Designator.isKnown, Bool.and_eq_true] at h
  obtain ⟨hstatic, hfaithful⟩ := h
  split at hstatic
  next type heq => exact ⟨type, heq, hfaithful⟩
  next => exact absurd hstatic Bool.false_ne_true

/-- An operand of a chain that is compared and accepted has the expected type. -/
theorem TermPasses.hasType (h : a.Sees env) {e : String}
    (he : isMark e = false) (hpasses : TermPasses a (.text e) o)
    (ho : o.isCompared env e false = true)
    (halone : o.isCompared env e true = true → ∀ {c : Code},
      checkExpression (.text e) o.toTree a = .ok c → o.hasType env (.named e) = true) :
    o.hasType env (.named e) = true := by
  cases hpasses with
  | plain hplain hc =>
    rw [Operand.isCompared_of_not_isSelected hplain] at ho
    exact halone ho hc
  | @field base f c hc =>
    have hknown : base.isKnown env = true := ho
    obtain ⟨type, hbase, hfaithful⟩ := Designator.exists_named_of_isKnown hknown
    have hne : e ≠ "" := by
      rintro rfl
      exact absurd he (by decide)
    obtain ⟨τ, hτ, hword⟩ := checkFieldAccess_ensures h hbase hfaithful hne f c hc
    obtain rfl := StaticType.eq_named_of_word he hword
    simp [Operand.hasType, Designator.static?, hbase, hτ]

mutual

theorem Expr.hasType_of_check (h : a.Sees env) {e : String}
    (he : isMark e = false) : ∀ {x : Expr}, x.isCompared env e = true → ∀ {c : Code},
    checkExpression (.text e) x.toTree a = .ok c → x.hasType env (.named e) = true
  | .operand o, hx, c, hc => Operand.hasType_of_check h he (o := o) hx hc
  | .compare left operator right, hx, c, hc => by
    obtain rfl := checkExpression_compare_ensures (by simpa [Expr.isCompared] using hx) c hc
    rfl

theorem Operand.hasType_of_check (h : a.Sees env) {e : String}
    (he : isMark e = false) : ∀ {o : Operand}, o.isCompared env e true = true → ∀ {c : Code},
    checkExpression (.text e) o.toTree a = .ok c → o.hasType env (.named e) = true
  | .number v, ho, c, hc => by
    obtain ⟨b, rfl, hb⟩ := checkExpression_literal_ensures ho (.int v) rfl c hc
    cases b <;> first | rfl | exact absurd hb nofun
  | .literal s, ho, c, hc => by
    rw [Operand.isCompared, Bool.and_eq_true] at ho
    obtain ⟨b, rfl, hb⟩ := checkExpression_literal_ensures ho.1 (.text s) rfl c hc
    cases b with
    | string => rfl
    | char => simpa [Operand.hasType, BasicType.name] using ho.2
    | _ => exact absurd hb nofun
  | .truth v, ho, c, hc => by
    rw [Operand.isCompared, Bool.and_eq_true] at ho
    obtain ⟨b, rfl, hb⟩ := checkExpression_literal_ensures ho.1 (.bool v) rfl c hc
    cases b with
    | boolean => rfl
    | integer => exact absurd ho.2 (by decide)
    | _ => exact absurd hb nofun
  | .designator (.name n), ho, c, hc => by
    have ho : n.isEmpty = false ∧ (env.static? n).isSome = true := by
      simpa [Operand.isCompared, Designator.isCompared] using ho
    obtain ⟨u, hu⟩ := checkExpression_name_eq_ok ho.1 hc
    exact beq_iff_eq.2 (checkVariable_ensures h he ho.2 u hu)
  | .designator (.element _ _), ho, _, _ | .designator (.field _ _), ho, _, _
  | .designator (.call _ _), ho, _, _ => absurd ho nofun
  | .group inner, ho, c, hc =>
    Expr.hasType_of_check h he (x := inner) ho (checkExpression_group_eq_ok hc)
  | .negation inner, ho, c, hc => by
    rw [Operand.isCompared, Bool.and_eq_true] at ho
    have hinner := checkExpression_negation_eq_ok ho.1 hc
    exact Operand.hasType_of_check h he (o := inner) ho.2 hinner
  | .binary left operator right, ho, c, hc => by
    rw [Operand.isCompared, Bool.and_eq_true] at ho
    obtain ⟨hleft, hright⟩ := checkExpression_binary_eq_ok hc
    rw [Operand.hasType, Bool.and_eq_true]
    constructor
    · exact hleft.hasType h he ho.1 (Operand.hasType_of_check h he (o := left))
    · exact hright.hasType h he ho.2 (Operand.hasType_of_check h he (o := right))

end

/-! ### First operands -/

/-- A comparison is a truth value. -/
theorem typeOf_compare_ensures (hoperator : operator.isEmpty = false) :
    (typeOf false (Expr.compare left operator right).toTree).Ensures a fun found =>
      found = .known (.text "boolean") := by
  have htruthy : (Tree.text operator).isTruthy = true := by simp [Tree.isTruthy, hoperator]
  refine .ite (fun _ => ?_) fun hfalse => absurd htruthy hfalse
  refine .bind fun _ _ => .bind fun _ _ => .ite (fun _ => ?_) fun _ => .pure rfl
  exact .of_stops (by simp)

/-- Fields and calls have no type that is asked for. -/
theorem chainType_selected (ho : o.isSelected = true) {t : Tree}
    (h : chainType (.list (o.toTree :: rest)) a = .ok t) : t = .null := by
  cases o with
  | designator place => cases place <;> first | exact (Except.ok.inj h).symm | exact absurd ho nofun
  | _ => exact absurd ho nofun

theorem Operand.hasType_of_first (h : a.Sees env) {e : String}
    (he : isMark e = false) : ∀ {o : Operand} {rest : List Tree} {t : Tree},
    o.isComparedFirst env e = true → chainType (.list (o.toTree :: rest)) a = .ok t →
      t.same (.text e) = true → ∀ {c : Code}, checkExpression (.text e) o.toTree a = .ok c →
      o.hasType env (.named e) = true
  | .number v, rest, t, _, ht, hsame, _, _ => by
    obtain rfl : Tree.text "integer" = t := Except.ok.inj ht
    obtain rfl := Tree.same_text.1 hsame
    rfl
  | .literal s, rest, t, _, ht, hsame, _, _ => by
    obtain rfl : Tree.text (Tree.text s).literalType = t := Except.ok.inj ht
    obtain rfl := Tree.same_text.1 hsame
    by_cases hs : s.length = 1 <;> simp [Operand.hasType, Tree.literalType, hs]
  | .truth _, _, _, ho, _, _, _, _ => absurd ho nofun
  | .designator (.name n), rest, t, ho, ht, hsame, c, hc => by
    have ho : n.isEmpty = false ∧ (env.static? n).isSome = true := by
      simpa [Operand.isComparedFirst] using ho
    obtain ⟨u, hu⟩ := checkExpression_name_eq_ok ho.1 hc
    exact beq_iff_eq.2 (checkVariable_ensures h he ho.2 u hu)
  | .designator (.element base index), rest, t, ho, ht, hsame, c, hc => by
    have hknown : (Designator.element base index).isKnown env = true := ho
    obtain ⟨type, hstatic, hfaithful⟩ := Designator.exists_named_of_isKnown hknown
    obtain rfl := elementType_ensures h hstatic hfaithful t ht
    obtain rfl : type = e := Tree.same_text.1 hsame
    exact beq_iff_eq.2 hstatic
  | .designator (.field _ _), rest, t, _, ht, hsame, _, _
  | .designator (.call _ _), rest, t, _, ht, hsame, _, _ => by
    obtain rfl := chainType_selected rfl ht
    exact absurd hsame Tree.not_same_null
  | .group inner, rest, t, _, ht, hsame, _, _ | .negation inner, rest, t, _, ht, hsame, _, _ => by
    obtain rfl : Tree.null = t := Except.ok.inj ht
    exact absurd hsame Tree.not_same_null
  | .binary left operator right, rest, t, ho, ht, hsame, c, hc => by
    rw [Operand.isComparedFirst, Bool.and_eq_true] at ho
    obtain ⟨hleft, hright⟩ := checkExpression_binary_eq_ok hc
    rw [Operand.hasType, Bool.and_eq_true]
    constructor
    · cases hleft with
      | plain _ hc => exact Operand.hasType_of_first h he (o := left) ho.1 ht hsame hc
      | @field base f =>
        have hleft : (Operand.designator (.field base f)).isSelected = true := rfl
        obtain rfl := chainType_selected hleft ht
        exact absurd hsame Tree.not_same_null
    · exact hright.hasType h he ho.2 (Operand.hasType_of_check h he (o := right))

/-- A value that is assigned to an element and compared has the expected type. -/
theorem Expr.hasType_of_first (h : a.Sees env) {e : String}
    (he : isMark e = false) {x : Expr} (hx : x.isComparedFirst env e = true) {found : ValueType}
    (hfound : typeOf false x.toTree a = .ok found)
    (hagrees : found.agrees (.known (.text e)) = true)
    {c : Code} (hc : checkExpression (.text e) x.toTree a = .ok c) :
    x.hasType env (.named e) = true := by
  cases x with
  | operand o =>
    obtain ⟨t, rfl, ht⟩ := typeOf_operand_eq_ok hfound []
    exact Operand.hasType_of_first h he (o := o) hx ht hagrees hc
  | compare left operator right => exact Expr.hasType_of_check h he hx hc

/-! ### Arrays -/

theorem dimensionTree_same {d d' : Nat × Nat}
    (h : (dimensionTree d).same (dimensionTree d') = true) : d = d' := by
  have hbound : ∀ {m n : Nat}, (Tree.int m).same (.int n) = true → m = n := by
    intro m n h
    have hcast : (m : Int) = n := by
      simpa [Tree.same, Tree.sameNumber, Tree.number?, Tree.Number.compare] using h
    exact Int.ofNat_inj.1 hcast
  rw [dimensionTree, dimensionTree, Tree.same, Tree.sameAll, Tree.sameAll, Bool.and_eq_true,
    Bool.and_eq_true] at h
  exact Prod.ext (hbound h.1) (hbound h.2.1)

/-- Dimensions are the same only if their bounds are. -/
theorem dimensions_same : ∀ {ds ds' : List (Nat × Nat)},
    Tree.sameAll (ds.map dimensionTree) (ds'.map dimensionTree) = true → ds = ds'
  | [], [], _ => rfl
  | [], _ :: _, h | _ :: _, [], h => by simp [Tree.sameAll] at h
  | d :: ds, d' :: ds', h => by
    rw [List.map_cons, List.map_cons, Tree.sameAll, Bool.and_eq_true] at h
    rw [dimensionTree_same h.1, dimensions_same h.2]

variable {n type : String} {value : Expr} {base : Designator} {m : Meaning}

variable (h : a.Sees env)

include h

/-- A name that is taken to be an array, with a type of its elements, is a constant or a variable
of an array type. -/
theorem factorType_array {t : Tree} (ht : factorType false .null (.text n) a = .ok t)
    (harray : t.same (.text "array") = true) {symbol info : Tree}
    (hsymbol : Check.lookup (.text n) a = .ok symbol) (hinfo : symbol.info = .ok info)
    (helement : info.get "element_type" = .ok (.text element)) (hn : (env.static? n).isSome = true)
    :
    ∃ type : ArrayType, env.static? n = some type.static ∧ type.Describes info := by
  have hknown := Env.lookup_ne_unknown hn
  rcases h.lookup_eq n with ⟨hnone, -⟩ | ⟨m, entry, hm, hlookup, hentry⟩
  · rw [Env.static?, hnone] at hn
    exact absurd hn Bool.false_ne_true
  obtain rfl := Except.ok.inj (hlookup.symm.trans hsymbol)
  have hm' : m ≠ .unknown := fun hunknown => hknown (hunknown ▸ hm)
  obtain ⟨info', hr⟩ := hentry.reads hm'
  obtain rfl := Except.ok.inj (hr.told.symm.trans hinfo)
  have hgives : m.Gives t := ((factorType_settles h hm hm').1 t ht).resolve_left fun hnull =>
    Tree.not_same_null (hnull ▸ harray)
  have helement := hr.element.symm.trans helement
  cases hknown : m.array? with
  | none =>
    rw [hknown] at helement
    cases helement
  | some type =>
    refine ⟨type, ?_, hr.array type hknown⟩
    rw [Env.static?, hm, Option.bind_some] at hn ⊢
    cases m with
    | value declared =>
      cases declared with
      | named => cases hknown
      | array => exact congrArg (Option.map ArrayType.static) hknown
    | arrayParameter own known =>
      -- The entry tells no type, and the word for that is taken to be the type.
      cases hgives with
      | shown _ hs =>
        obtain rfl : "None" = _ := Except.ok.inj hs
        exact absurd (Tree.same_text.1 harray) (by decide)
      | value hnever => cases hnever
    | arrayType => cases hn
    | _ => cases hknown

theorem checkArrayValue_ensures {info : Tree} {type : ArrayType} (hinfo : type.Describes info)
    (hvalue : value.isTypedName env = true) :
    (checkArrayValue info value.toTree).Ensures a fun _ =>
      value.hasType env type.static = true := by
  refine .bind fun element helement => .bind fun found hfound => .ite (fun _ => ?_) fun harray => ?_
  · exact .of_stops (by simp)
  refine .bind fun other hother => .bind fun info' hinfo' => .bind fun element' helement' => ?_
  refine .ite (fun _ => ?_) fun helements => ?_
  · exact .of_stops (by simp)
  refine .bind fun dims hdims => .bind fun info'' hinfo'' => .bind fun dims' hdims' => ?_
  refine .ite (fun _ => .refuse) fun hsame => .pure ?_
  rw [fault_eq_ok] at helement hinfo' helement' hdims hinfo'' hdims'
  obtain rfl := Except.ok.inj (hinfo'.symm.trans hinfo'')
  cases hinfo
  obtain rfl : Tree.text type.element = element := Except.ok.inj helement
  obtain rfl : Tree.list (type.dimensions.map dimensionTree) = dims := Except.ok.inj hdims
  obtain rfl := Tree.eq_of_same_text (by simpa using helements)
  have harray : found.isNamed "array" = true := by simpa using harray
  cases value with
  | compare left operator right =>
    have hoperator : operator.isEmpty = false := by simpa [Expr.isTypedName] using hvalue
    obtain rfl := typeOf_compare_ensures hoperator found hfound
    exact absurd (Tree.same_text.1 harray) (by decide)
  | operand o =>
    obtain ⟨t, rfl, ht⟩ := typeOf_operand_eq_ok hfound []
    -- What is no name stands for no array.
    have hname : ∃ n, o = .designator (.name n) := by
      have hnull : Check.lookup .null a ≠ .ok other := by
        intro hother
        obtain rfl : Tree.null = other := Except.ok.inj hother
        exact absurd hinfo' nofun
      cases o with
      | designator place =>
        cases place with
        | name n => exact ⟨n, rfl⟩
        | _ => exact absurd hother hnull
      | _ => exact absurd hother hnull
    obtain ⟨n, rfl⟩ := hname
    obtain ⟨type', htype', hdescribes⟩ :=
      factorType_array h ht harray hother hinfo' helement' hvalue
    cases hdescribes
    obtain rfl : Tree.list (type'.dimensions.map dimensionTree) = dims' := Except.ok.inj hdims'
    have hdimensions : type.dimensions = type'.dimensions :=
      dimensions_same (by simpa [Tree.same] using hsame)
    have helement : type'.element = type.element := Tree.text.inj (Except.ok.inj helement')
    rw [Expr.hasType, Operand.hasType, Designator.static?, htype', ArrayType.static,
      ArrayType.static, hdimensions, helement]
    exact beq_self_eq_true _

/-! ### Assignments -/

/-- What is assigned to a name, once the entry of the name has been found. -/
theorem checkAssign_name_eq_ok (hm : env.lookup n = some m) (hunknown : m ≠ .unknown) {value : Tree}
    (hc : checkAssign (.text n) value a = .ok c) :
    ∃ info, (∀ type ∈ m.array?, type.Describes info) ∧
      (m.valueType.isTextOf "array" = true → ∃ u, checkArrayValue info value a = .ok u) ∧
      ∃ code, checkExpression m.valueType value a = .ok code := by
  rcases h.lookup_eq n with ⟨hnone, -⟩ | ⟨m', entry, hm', hlookup, hentry⟩
  · cases hnone.symm.trans hm
  obtain rfl := Option.some.inj (hm.symm.trans hm')
  obtain ⟨info, hr⟩ := hentry.reads hunknown
  have hc := (bind_of_ok hlookup).symm.trans hc
  dsimp only at hc
  rw [if_neg (by simp [hentry.isTruthy]), bind_of_ok (fault_eq_ok.2 hr.told),
    bind_of_ok (fault_eq_ok.2 hr.value)] at hc
  refine ⟨info, hr.array, ?_⟩
  split at hc
  next harray =>
    obtain ⟨u, hu, hc⟩ := bind_eq_ok.1 hc
    obtain ⟨code, hcode, -⟩ := bind_eq_ok.1 hc
    exact ⟨fun _ => ⟨u, hu⟩, code, hcode⟩
  next harray =>
    obtain ⟨code, hcode, -⟩ := bind_eq_ok.1 hc
    exact ⟨fun h => absurd h harray, code, hcode⟩

theorem hasType_of_assign_basic {declared : DeclaredType}
    (hn : env.lookup n = some (.value declared)) (hstatic : declared.static = .named type)
    (hbasic : isBasic type = true) (hvalue : value.isCompared env type = true)
    (hc : checkAssign (.text n) value.toTree a = .ok c) :
    value.hasType env (.named type) = true := by
  obtain ⟨info, -, -, code, hcode⟩ := checkAssign_name_eq_ok h hn (fun hnever => by cases hnever) hc
  cases declared with
  | named given =>
    obtain rfl := StaticType.named.inj hstatic
    obtain ⟨b, hb⟩ := Option.isSome_iff_exists.1 hbasic
    obtain rfl := ofName?_eq_some hb
    rw [Meaning.valueType, if_pos hbasic] at hcode
    exact Expr.hasType_of_check h (isMark_name b) hvalue hcode
  | array given => cases hstatic

theorem hasType_of_assign_array {dimensions : List (Nat × Nat)}
    (hn : env.static? n = some (.array dimensions element))
    (hfaithful : (Designator.name n).isFaithful env = true) (hvalue : value.isTypedName env = true)
    (hc : checkAssign (.text n) value.toTree a = .ok c) :
    value.hasType env (.array dimensions element) = true := by
  obtain ⟨m, hm, hstatic⟩ := Option.bind_eq_some_iff.1 hn
  obtain ⟨info, hinfo, harray, -⟩ :=
    checkAssign_name_eq_ok h hm (fun hunknown => by rw [hunknown] at hstatic; cases hstatic) hc
  obtain ⟨hword, type, htype⟩ :
      m.valueType.isTextOf "array" = true ∧ ∃ type, m.array? = some type := by
    cases m with
    | value declared =>
      cases declared with
      | named => cases hstatic
      | array type => exact ⟨rfl, type, rfl⟩
    | arrayParameter own known => exact ⟨rfl, known, rfl⟩
    | parameter type =>
      cases type with
      | array type => exact absurd rfl (h.ne_array hm type)
      | _ => cases hstatic
    | _ => cases hstatic
  obtain ⟨u, hu⟩ := harray hword
  rw [Meaning.array?_static hm htype hn hfaithful]
  exact checkArrayValue_ensures h (hinfo type htype) hvalue u hu

theorem hasType_of_assign_element {index : Expr}
    (hstatic : (Designator.element base index).static? env = some (.named type))
    (hfaithful : (Designator.element base index).isFaithful env = true)
    (htype : isMark type = false) (hvalue : value.isComparedFirst env type = true)
    (hc : checkAssign (Designator.element base index).toTree value.toTree a = .ok c) :
    value.hasType env (.named type) = true := by
  obtain ⟨_, -, hc⟩ := bind_eq_ok.1 hc
  obtain ⟨element, helement, hc⟩ := bind_eq_ok.1 hc
  obtain ⟨found, hfound, hc⟩ := bind_eq_ok.1 hc
  obtain rfl := elementType_ensures h hstatic hfaithful element helement
  split at hc
  · exact absurd hc ((Stops.bind fun _ => by simp) _)
  next hagrees =>
    obtain ⟨code, hcode, -⟩ := bind_eq_ok.1 hc
    have hagrees : found.agrees (.known (.text type)) = true := by
      simpa [StaticType.word] using hagrees
    exact Expr.hasType_of_first h htype hvalue hfound hagrees hcode

theorem hasType_of_assign_field {f : String}
    (hstatic : (Designator.field base f).static? env = some (.named type))
    (hfaithful : base.isFaithful env = true) (htype : isMark type = false)
    (hvalue : value.isCompared env type = true)
    (hc : checkAssign (Designator.field base f).toTree value.toTree a = .ok c) :
    value.hasType env (.named type) = true := by
  unfold Designator.static? at hstatic
  split at hstatic
  next record hrecord =>
    obtain ⟨_, -, hc⟩ := bind_eq_ok.1 hc
    obtain ⟨known, hknown, hc⟩ := bind_eq_ok.1 hc
    rcases fieldType_ensures h f hrecord hfaithful known hknown with rfl | ⟨τ, hτ, rfl⟩
    · exact absurd hc ((Stops.bind fun _ => by simp) _)
    · obtain rfl := Option.some.inj (hτ.symm.trans hstatic)
      obtain ⟨code, hcode, -⟩ := bind_eq_ok.1 hc
      exact Expr.hasType_of_check h htype hvalue hcode
  next => exact absurd hstatic nofun

/-- An assignment that is compared and accepted is of one type on both sides. -/
theorem isWellTyped_of_checkAssign {target : Designator}
    (hcompared : assignmentIsCompared env target value = true)
    (hc : checkAssign target.toTree value.toTree a = .ok c) :
    isWellTyped env target value = true := by
  unfold assignmentIsCompared at hcompared
  rw [Bool.and_eq_true] at hcompared
  obtain ⟨hfaithful, hcompared⟩ := hcompared
  unfold isWellTyped
  split at hcompared
  next n type hstatic =>
    rw [hstatic]
    rw [Bool.and_eq_true, Bool.and_eq_true] at hcompared
    obtain ⟨⟨hbasic, hvariable⟩, hvalue⟩ := hcompared
    split at hvariable
    next declared hn =>
      have hdeclared : declared.static = .named type := by
        simpa [Designator.static?, Env.static?, hn, Meaning.static?] using hstatic
      exact hasType_of_assign_basic h hn hdeclared hbasic hvalue hc
    next => exact absurd hvariable Bool.false_ne_true
  next n dimensions element hstatic =>
    rw [hstatic]
    exact hasType_of_assign_array h hstatic hfaithful hcompared hc
  next base index type hstatic =>
    rw [hstatic]
    rw [Bool.and_eq_true, Bool.not_eq_true'] at hcompared
    exact hasType_of_assign_element h hstatic hfaithful hcompared.1 hcompared.2 hc
  next base f type hstatic =>
    rw [hstatic]
    rw [Bool.and_eq_true, Bool.not_eq_true'] at hcompared
    exact hasType_of_assign_field h hstatic hfaithful hcompared.1 hcompared.2 hc
  next => exact absurd hcompared Bool.false_ne_true

end Checked

/-! ### Statements -/

mutual

/-- The assignments that are checked with a statement. A compound statement that stands among others
is passed over. -/
def Stmt.assignments : Stmt → List (Designator × Expr)
  | .assign target value => [(target, value)]
  | .ifThen _ thenBranch => thenBranch.bodyAssignments
  | .ifElse _ thenBranch elseBranch => thenBranch.bodyAssignments ++ elseBranch.bodyAssignments
  | .whileLoop _ body | .forLoop _ _ _ _ body => body.bodyAssignments
  | .compound _ => []
  | .call _ _ => []

def Stmt.bodyAssignments : Stmt → List (Designator × Expr)
  | .compound ss => stmtsAssignments ss
  | _ => []

def stmtsAssignments : List Stmt → List (Designator × Expr)
  | [] => []
  | s :: ss => s.assignments ++ stmtsAssignments ss

end

/-- An assignment has been checked with success. -/
def AssignPasses (a : Analysis) (x : Designator × Expr) : Prop :=
  ∃ c, checkAssign x.1.toTree x.2.toTree a = .ok c

mutual

theorem Stmt.assignments_pass {a : Analysis} : ∀ {s : Stmt} {code : Option Code},
    checkStatement s.toTree a = .ok code → ∀ x ∈ s.assignments, AssignPasses a x
  | .assign target value, code, h, x, hx => by
    obtain rfl := List.mem_singleton.1 hx
    obtain ⟨c, hc, -⟩ := bind_eq_ok.1 h
    exact ⟨c, hc⟩
  | .ifElse condition thenBranch elseBranch, code, h, x, hx => by
    obtain ⟨_, -, h⟩ := bind_eq_ok.1 h
    obtain ⟨codes, hthen, h⟩ := bind_eq_ok.1 h
    rw [if_pos elseBranch.isTruthy_toTree] at h
    obtain ⟨codes', helse, -⟩ := bind_eq_ok.1 h
    rcases List.mem_append.1 hx with hx | hx
    · exact Stmt.bodyAssignments_pass hthen x hx
    · exact Stmt.bodyAssignments_pass helse x hx
  | .ifThen condition body, code, h, x, hx | .whileLoop condition body, code, h, x, hx
  | .forLoop name start direction stop body, code, h, x, hx => by
    obtain ⟨_, -, h⟩ := bind_eq_ok.1 h
    obtain ⟨codes, hbody, -⟩ := bind_eq_ok.1 h
    exact Stmt.bodyAssignments_pass hbody x hx
  | .compound _, _, _, _, hx | .call _ _, _, _, _, hx => absurd hx List.not_mem_nil

theorem Stmt.bodyAssignments_pass {a : Analysis} : ∀ {s : Stmt} {codes : List Code},
    checkCompound s.toTree a = .ok codes → ∀ x ∈ s.bodyAssignments, AssignPasses a x
  | .compound _, _, h, x, hx => stmtsAssignments_pass h x hx
  | .assign _ _, _, _, _, hx | .ifThen _ _, _, _, _, hx | .ifElse _ _ _, _, _, _, hx
  | .whileLoop _ _, _, _, _, hx | .forLoop _ _ _ _ _, _, _, _, hx | .call _ _, _, _, _, hx =>
    absurd hx List.not_mem_nil

theorem stmtsAssignments_pass {a : Analysis} : ∀ {ss : List Stmt} {codes : List Code},
    checkStatementList (stmtTrees ss) a = .ok codes → ∀ x ∈ stmtsAssignments ss, AssignPasses a x
  | [], _, _, _, hx => absurd hx List.not_mem_nil
  | s :: ss, codes, h, x, hx => by
    obtain ⟨code, hs, h⟩ := bind_eq_ok.1 h
    obtain ⟨rest, hss, -⟩ := bind_eq_ok.1 h
    rcases List.mem_append.1 hx with hx | hx
    · exact Stmt.assignments_pass hs x hx
    · exact stmtsAssignments_pass hss x hx

end

/-- In statements that are accepted, all assignments that are compared are of one type on both
sides. -/
theorem isWellTyped_of_accepted {env : Env} {ss : List Stmt} (h : Accepted env ss) :
    ∀ x ∈ stmtsAssignments ss, assignmentIsCompared env x.1 x.2 = true →
      isWellTyped env x.1 x.2 = true := by
  intro x hx hcompared
  obtain ⟨a, codes, hfits, hcodes⟩ := h
  obtain ⟨c, hc⟩ := stmtsAssignments_pass hcodes x hx
  exact isWellTyped_of_checkAssign hfits hcompared hc

/-- In a program that is accepted, an assignment of its statements or of those of its routines is of
one type on both sides, if all its operands are compared. -/
theorem analyze_assignments {text : String} {a : Analysis} (h : Pipeline.analyze text = .ok a) :
    ∃ tokens p, Token.lex text = .ok tokens ∧ Program.parse tokens = .ok p ∧
      p.block.EachBody (fun env ss => ∀ x ∈ stmtsAssignments ss,
        assignmentIsCompared env x.1 x.2 = true → isWellTyped env x.1 x.2 = true) [] := by
  obtain ⟨tokens, p, code, htokens, hparse, hrun⟩ := analyze_eq_ok h
  have hbodies := analyzeBlock_eachBody p.block Analysis.start_fits hrun
  exact ⟨tokens, p, htokens, hparse, hbodies.mono fun _ _ => isWellTyped_of_accepted⟩

/-- A program that assigns elements, fields and the values of chains. -/
def mixedAssignments : String :=
  "program p; type t = record f: integer; end; " ++
    "var x: integer; a: array[1..2] of integer; s: string; r: t; " ++
    "procedure g(n: integer); begin x := n + 1; end; begin a[1] := x + r.f; x := a[2]; " ++
    "while x < 3 do begin x := x + r.f; end; s := a[1]; end."

/-- Two of its assignments are not compared, and one of these is not of one type. -/
theorem analyze_assignments_mixedAssignments :
    ∃ a tokens p ds ss, Pipeline.analyze mixedAssignments = .ok a ∧
      Token.lex mixedAssignments = .ok tokens ∧ Program.parse tokens = .ok p ∧
      p.block = .mk ds ss ∧
      (stmtsAssignments ss).map (fun x => (assignmentIsCompared (declsEnv [] none ds) x.1 x.2,
        isWellTyped (declsEnv [] none ds) x.1 x.2)) =
          [(true, true), (false, true), (true, true), (false, false)] ∧
      p.block.EachBody (fun env ss => ∀ x ∈ stmtsAssignments ss,
        assignmentIsCompared env x.1 x.2 = true → isWellTyped env x.1 x.2 = true) [] := by
  have hchars : mixedAssignments.toList = _ := Text.toList_append_eq (Text.toList_append_eq
    (Text.toList_append_eq String.toList_ofList String.toList_ofList) String.toList_ofList)
    String.toList_ofList
  obtain ⟨a, ha, -⟩ := Pipeline.exists_of_analyzeChars hchars (fun _ => true) (by decide +kernel)
  obtain ⟨tokens', p', htokens', hparse', htypes⟩ := Program.exists_of_lexChars hchars
    (fun p => @Block.casesOn (fun _ => Bool) p.block fun ds ss =>
      (stmtsAssignments ss).map (fun x => (assignmentIsCompared (declsEnv [] none ds) x.1 x.2,
        isWellTyped (declsEnv [] none ds) x.1 x.2)) =
      [(true, true), (false, true), (true, true), (false, false)]) (by decide +kernel)
  obtain ⟨tokens, p, htokens, hparse, hbodies⟩ := analyze_assignments ha
  obtain rfl := Except.ok.inj (htokens.symm.trans htokens')
  obtain rfl := Except.ok.inj (hparse.symm.trans hparse')
  obtain ⟨ds, ss, hblock⟩ : ∃ ds ss, p.block = .mk ds ss := by
    cases p.block with
    | mk ds ss => exact ⟨ds, ss, rfl⟩
  rw [hblock] at htypes
  exact ⟨a, tokens, p, ds, ss, ha, htokens, hparse, hblock, of_decide_eq_true htypes, hbodies⟩

end MiniPascal
