import MiniPascal.Proofs.Analysis.InitialValues
import MiniPascal.Proofs.Safety.Expressions

/-!
# Checking Other Words

The words that a program keeps decide little about it. The check of an expression asks whether what
stands between two operands is a known operator, and whether a name that is called is that of a
function; the check of a statement asks for the direction of a loop, and whether a name that is
called is that of a procedure. These questions are put to the words as they are written. Everything
else is the same for programs that differ in words.
-/

namespace MiniPascal

/-- The keywords that checks ask for as they are written. -/
def comparedWords : List String := ["to", "or", "div", "mod", "and", "procedure", "function"]

/-- The words that checks ask for are not replaced. -/
def Kept (R : String → String → Prop) : Prop := ∀ ⦃w w'⦄, R w w' → w ∈ comparedWords → w' = w

/-- The words of the second of two runs replace those of the first one, and under `K` those that
checks ask for are kept. -/
structure Beside (R : String → String → Prop) (K : Prop) (a a' : Analysis) : Prop where
  words : Respells R
  kept : K → Kept R
  alike : a.Alike R a'

open Check Typing Checking

variable {R : String → String → Prop} {K : Prop} {a a' : Analysis}

/-! ### The kinds of routines -/

def WordAlike (R : String → String → Prop) (t t' : Tree) : Prop :=
  t = t' ∨ ∃ w w', R w w' ∧ t = .text w ∧ t' = .text w'

theorem EntryAlike.kind {e e' : Tree} (h : EntryAlike R e e') :
    Tracks K (WordAlike R) (e.get "kind") (e'.get "kind") := by
  cases h with
  | same => exact (Tracks.of_eq rfl).mono fun _ _ hxy => .inl hxy
  | routine hw => exact .ok (.inr ⟨_, _, hw, rfl, rfl⟩)

/-- A word that is asked for is found in both runs. -/
theorem WordAlike.isTextOf {t t' : Tree} (h : WordAlike R t t') (hkept : Kept R) {s : String}
    (hs : s ∈ comparedWords) (ht : t.isTextOf s = true) : t'.isTextOf s = true := by
  obtain rfl | ⟨w, w', hw, rfl, rfl⟩ := h
  · exact ht
  · obtain rfl : w = s := of_decide_eq_true ht
    rw [hkept hw hs]
    exact ht

/-! ### Types -/

theorem Designator.Reworded.accessIndices_length : ∀ {d d' : Designator}, d.Reworded R d' →
    d.toTree.accessIndices.length = d'.toTree.accessIndices.length
  | _, _, .name _ | _, _, .field _ _ | _, _, .call _ _ => rfl
  | _, _, .element hd _ => by
    have hlength : ∀ (base : Designator) (index : Expr),
        (Designator.element base index).toTree.accessIndices =
          base.toTree.accessIndices ++ [index.toTree] := fun base index => by
      cases index <;> rfl
    rw [hlength, hlength, List.length_append, List.length_append, hd.accessIndices_length]
    rfl

theorem Designator.Reworded.flatAccess {d d' : Designator} (hd : d.Reworded R d') :
    Check.Tracks K (fun x y => x.1 = y.1 ∧ x.2.length = y.2.length) (flatAccess d.toTree)
      (flatAccess d'.toTree) a a' := by
  have hother : ∀ {t : Tree}, t.arrayBase.isText = false → (Typing.flatAccess t).Stops a := by
    intro t ht
    unfold Typing.flatAccess
    split
    next heq =>
      rw [heq] at ht
      cases ht
    next => exact .refuse
  obtain ⟨n, hbase, hbase'⟩ | ⟨hbase, -⟩ := hd.arrayBase_eq
  · rw [Typing.flatAccess, Typing.flatAccess, hbase, hbase']
    exact .pure ⟨rfl, hd.accessIndices_length⟩
  · exact .of_stops (hother hbase)

section

variable (h : Beside R K a a') {d d' : Designator}

include h

theorem Designator.Reworded.arrayOf (hd : d.Reworded R d') :
    Check.Tracks K Eq (arrayOf d.toTree) (arrayOf d'.toTree) a a' := by
  refine hd.flatAccess.bind fun x y hxy => ?_
  obtain ⟨name, _⟩ := x
  obtain ⟨_, _⟩ := y
  obtain rfl : name = _ := hxy.1
  refine (lookup_tracks h.alike _).bind fun e e' he => ?_
  refine .ite (by rw [he.isTruthy_eq]) (fun _ => .of_stops (by simp)) fun _ => ?_
  rw [← he.info_eq]
  refine .bind_eq rfl fun info => .bind_eq rfl fun type => ?_
  exact .ite_stops (by simp) fun _ => .pure rfl

theorem Designator.Reworded.elementType (hd : d.Reworded R d') :
    Check.Tracks K Eq (elementType d.toTree) (elementType d'.toTree) a a' :=
  (hd.arrayOf h).bind_same fun _ => .of_eq rfl

theorem Beside.factorType (detailed : Bool) (value name : Tree) :
    Same a a' (factorType detailed value name) := by
  refine .ite (lookup_bind_same h.alike fun e e' he => ?_) (.ite rfl rfl)
  rw [he.info_eq, he.isParameterEntry_eq h.words, he.get_eq (by decide) (by decide), he.isTruthy_eq]
  exact Same.ite rfl (.bind rfl fun _ => .ite rfl (.ite rfl rfl))

theorem Operand.Reworded.chainType : ∀ {o o' : Operand}, o.Reworded R o' → ∀ rest rest' : List Tree,
    Check.Tracks K Eq (chainType (.list (o.toTree :: rest)))
      (chainType (.list (o'.toTree :: rest'))) a a'
  | _, _, .number n, _, _ => .of_eq (h.factorType false (.int n) .null)
  | _, _, .literal s, _, _ => .of_eq (h.factorType false (.text s) .null)
  | _, _, .truth b, _, _ => .of_eq (h.factorType false (.bool b) .null)
  | _, _, .designator (.name n), _, _ => .of_eq (h.factorType false .null (.text n))
  | _, _, .designator (.element hd he), _, _ => Designator.Reworded.elementType h (.element hd he)
  | _, _, .designator (.field _ _), _, _ | _, _, .designator (.call _ _), _, _
  | _, _, .group _, _, _ | _, _, .negation _, _, _ => .pure rfl
  | _, _, .binary hl _ _, _, _ => hl.chainType _ _

/-- Looking up what is called. -/
theorem Designator.Reworded.lookup (hd : d.Reworded R d') :
    Check.Tracks K (EntryAlike R) (lookup d.toTree) (lookup d'.toTree) a a' := by
  cases hd with
  | name n => exact lookup_tracks h.alike _
  | _ => exact (Check.Tracks.of_eq rfl).mono fun _ _ hxy => hxy ▸ .same _

theorem Designator.Reworded.resultType (hd : d.Reworded R d') :
    Check.Tracks K Eq (resultType d.toTree) (resultType d'.toTree) a a' := by
  refine (hd.lookup h).bind fun e e' he => ?_
  refine .ite (by rw [he.isTruthy_eq]) (fun _ => .of_stops (by simp))
    fun _ => ?_
  rw [← he.get_eq (by decide) (by decide)]
  refine .bind_eq rfl fun type => .ite Iff.rfl (fun _ => .pure rfl) fun _ => ?_
  have hread : Check.Tracks K (fun s s' => s.scopes.Alike R s'.scopes) read read a a' :=
    MiniPascal.Tracks.ok h.alike.scopes
  refine hread.bind fun s s' hs => ?_
  cases hd with
  | name n =>
    have hfound := hs.resolve s.scopes.current n
    dsimp only [Designator.toTree]
    rw [← hs.current]
    generalize s.scopes.resolve s.scopes.current n = found at hfound ⊢
    generalize s'.scopes.resolve s.scopes.current n = found' at hfound ⊢
    cases hfound with
    | some hfound => exact .pure (congrArg (ValueType.resultOf · n type) hfound.1)
    | none => exact .pure rfl
  | _ => exact .pure rfl

theorem Operand.Reworded.typeOf {o o' : Operand} (ho : o.Reworded R o') (detailed : Bool) :
    Check.Tracks K Eq (typeOf detailed o.toTree) (typeOf detailed o'.toTree) a a' := by
  cases ho with
  | number n => exact .bind_eq (h.factorType detailed (.int n) .null) fun _ => .pure rfl
  | literal s => exact .bind_eq (h.factorType detailed (.text s) .null) fun _ => .pure rfl
  | truth b => exact .bind_eq (h.factorType detailed (.bool b) .null) fun _ => .pure rfl
  | designator hd =>
    cases hd with
    | name n => exact .bind_eq (h.factorType detailed .null (.text n)) fun _ => .pure rfl
    | element hd he =>
      exact (Designator.Reworded.elementType h (.element hd he)).bind_same fun _ => .pure rfl
    | field => exact .pure rfl
    | call hd _ => exact hd.resultType h
  | group | negation => exact .pure rfl
  | binary => exact .of_stops .fail

theorem Operand.Reworded.typeOf_alone {o o' : Operand} (ho : o.Reworded R o') (detailed : Bool)
    {t t' right right' : Tree} (ht : t.isTruthy = false) (ht' : t'.isTruthy = false) :
    Check.Tracks K Eq (Typing.typeOf detailed (.expression o.toTree t right))
      (Typing.typeOf detailed (.expression o'.toTree t' right')) a a' := by
  refine .ite (by rw [ht, ht']) (fun htrue => absurd (ht ▸ htrue) Bool.false_ne_true) fun _ => ?_
  have hsame := ho.typeOf h detailed
  cases ho with
  | designator hd =>
    cases hd with
    | name | element => exact hsame
    | _ => exact .pure rfl
  | group | negation => exact .pure rfl
  | binary hl _ _ => exact (hl.chainType h _ _).bind_same fun _ => .pure rfl
  | _ => exact hsame

theorem Expr.Reworded.typeOf {e e' : Expr} (he : e.Reworded R e') (detailed : Bool) :
    Check.Tracks K Eq (typeOf detailed e.toTree) (typeOf detailed e'.toTree) a a' := by
  cases he with
  | operand ho => exact ho.typeOf_alone h detailed rfl rfl
  | @compare l l' r r' w w' hl hw hr =>
    have hword := (h.words.respelled hw).isTruthy_eq
    by_cases htrue : (Tree.text w).isTruthy = true
    · refine .ite (by rw [hword]) (fun _ => ?_) fun hfalse => absurd htrue hfalse
      refine (hl.typeOf h detailed).bind_same fun left => ?_
      refine (hr.typeOf h detailed).bind_same fun right => ?_
      refine .ite_stops ?_ fun _ => .pure rfl
      simp
    · have hfalse := Bool.of_not_eq_true htrue
      exact hl.typeOf_alone h detailed hfalse (hword ▸ hfalse)

/-! ### Fields -/

omit h in
theorem EntryAlike.findField {e e' : Tree} (he : EntryAlike R e e') (field : Tree) :
    findField e field a = findField e' field a' := by
  cases he with
  | same =>
    refine Same.bind rfl fun _ => .bind rfl fun infos => ?_
    induction infos with
    | nil => rfl
    | cons info rest ih => exact .bind rfl fun _ => .ite rfl ih
  | routine => rfl

theorem Beside.fieldTypeIn (type field : Tree) : Same a a' (fieldTypeIn type field) := by
  refine lookup_bind_same h.alike fun e e' he => ?_
  cases he with
  | same e =>
    have hfound : Same a a' (findField e field) := (EntryAlike.same (R := R) e).findField field
    refine Same.bind rfl fun _ => .ite (.bind hfound fun found => ?_) rfl
    cases found <;> rfl
  | routine => rfl

theorem EntryAlike.recordTypeOf {e e' : Tree} (he : EntryAlike R e e') :
    recordTypeOf e a = recordTypeOf e' a' := by
  unfold Typing.recordTypeOf
  rw [he.info_eq, he.isParameterEntry_eq h.words, he.get_eq (by decide) (by decide)]
  exact Same.bind rfl fun _ => .bind rfl fun _ => .bind rfl fun _ => .ite rfl rfl

theorem Designator.Reworded.fieldType : ∀ {d d' : Designator}, d.Reworded R d' → ∀ f : Tree,
    Check.Tracks K Eq (fieldType f d.toTree) (fieldType f d'.toTree) a a'
  | _, _, .name n, f => by
    refine (lookup_tracks h.alike (.text n)).bind fun e e' he => ?_
    refine .ite (by rw [he.isTruthy_eq]) (fun _ => .pure rfl) fun _ => ?_
    exact .bind_eq (he.recordTypeOf h) fun type => .of_eq (Same.ite (h.fieldTypeIn type f) rfl)
  | _, _, .field inner hd, f =>
    (hd.fieldType (.text inner)).bind_same fun type => .of_eq (Same.ite (h.fieldTypeIn type f) rfl)
  | _, _, .element hd hi, f => by
    refine (Designator.Reworded.flatAccess (.element hd hi)).bind fun x y hxy => ?_
    obtain ⟨name, _⟩ := x
    obtain ⟨_, _⟩ := y
    obtain rfl : name = _ := hxy.1
    refine (lookup_tracks h.alike _).bind fun e e' he => ?_
    refine .ite (by rw [he.isTruthy_eq]) (fun _ => .pure rfl) fun _ => ?_
    rw [← he.info_eq]
    exact .of_eq (Same.bind rfl fun _ => .bind rfl fun _ =>
      .ite (.bind rfl fun _ => h.fieldTypeIn _ f) rfl)
  | _, _, .call _ _, _ => .pure rfl

theorem Beside.recordField (type field : Tree) {missing missing' : Check Tree}
    {other other' : Tree → Check Tree} (hmissing : missing.Stops a)
    (hother : ∀ record, (other record).Stops a) :
    Check.Tracks K Eq
      (do
        let record ← lookup type
        if !(← record.isRecordEntry) then other record else requireField record field missing)
      (do
        let record ← lookup type
        if !(← record.isRecordEntry) then other' record else requireField record field missing')
      a a' := by
  refine (lookup_tracks h.alike type).bind fun e e' he => ?_
  rw [← he.isRecordEntry_eq]
  refine .bind_eq rfl fun _ => .ite_stops (hother e) fun _ => ?_
  refine .bind_eq (he.findField field) fun found => ?_
  cases found with
  | some info => exact .of_eq rfl
  | none => exact .of_stops hmissing

theorem Beside.variableField (name : String) (field : Tree) :
    Check.Tracks K Eq (variableField name field) (variableField name field) a a' := by
  refine (lookup_tracks h.alike (.text name)).bind fun e e' he => ?_
  refine .ite (by rw [he.isTruthy_eq]) (fun _ => .of_stops (by simp)) fun _ => ?_
  refine .bind_eq (he.recordTypeOf h) fun type => .ite_stops (by simp) fun _ => ?_
  exact h.recordField type field (by simp)
    fun _ => by simp

theorem Designator.Reworded.elementField (hd : d.Reworded R d') (f : Tree) :
    Check.Tracks K Eq (elementField d.toTree f) (elementField d'.toTree f) a a' := by
  refine (hd.arrayOf h).bind_same fun found => .bind_eq rfl fun type => ?_
  refine .ite_stops (by simp) fun _ => ?_
  exact h.recordField type f (by simp) fun _ => by simp

theorem Designator.Reworded.nestedField (hd : d.Reworded R d') (inner f : Tree) :
    Check.Tracks K Eq (nestedField d.toTree inner f) (nestedField d'.toTree inner f) a a' := by
  refine (hd.fieldType h inner).bind_same fun type => ?_
  refine .ite_stops (by simp) fun _ => ?_
  exact h.recordField type f (by simp)
    fun _ => by simp

/-! ### Values and indices -/

omit h in
theorem checkLiteral_same (expected value : Tree) : Same a a' (checkLiteral expected value) := by
  refine .bind rfl fun basic => ?_
  cases basic with
  | some basic => exact .ite rfl rfl
  | none => rfl

omit h in
theorem compareType_same (expected name info type : Tree) : Same a a' (do
    if expected.isNull then return
    if (← type.plain) ≠ (← expected.plain) then
      let found ← if type.isTextOf "record" then info.get "record_type" else pure type
      if !type.isTextOf "record" || !found.same expected then
        refuse (.variableType (← found.plain) (← expected.plain) (← name.plain))) :=
  .ite rfl (.bind rfl fun _ => .bind rfl fun _ =>
    .ite (.ite (.bind rfl fun _ => .ite rfl rfl) (.ite rfl rfl)) rfl)

theorem Beside.checkVariable (expected name : Tree) : Same a a' (checkVariable expected name) := by
  refine lookup_bind_same h.alike fun e e' he => ?_
  rw [he.isTruthy_eq, he.info_eq, he.isParameterEntry_eq h.words,
    he.get_eq (by decide) (by decide)]
  refine Same.ite rfl (.bind rfl fun info => .bind rfl fun own => .bind rfl fun isParameter => ?_)
  exact .ite (.bind rfl fun type => compareType_same expected name info type)
    (compareType_same expected name info own)

theorem Beside.checkEmpty (expected : Tree) : Same a a' (checkEmpty expected) := by
  refine lookup_bind_same h.alike fun e e' he => ?_
  rw [he.info_eq, he.isTruthy_eq]
  have hliteral : Same a a' (checkLiteral expected .null) := checkLiteral_same expected .null
  exact Same.ite (.bind rfl fun _ => .bind rfl fun _ => .ite rfl hliteral) hliteral

theorem Designator.Reworded.accessDimensions (hd : d.Reworded R d') :
    Check.Tracks K Eq (accessDimensions d.toTree) (accessDimensions d'.toTree) a a' := by
  refine hd.flatAccess.bind fun x y hxy => (hd.arrayOf h).bind_same fun found => ?_
  refine .bind_eq rfl fun given => .bind_eq rfl fun dimensions => ?_
  exact .ite (by rw [hxy.2]) (fun _ => .of_stops (by simp)) fun _ => .pure rfl

omit h in
theorem indexValue_tracks {e e' : Expr} {check check' : Check Code}
    (hcheck : Check.Tracks K (Code.Reworded R) check check' a a') :
    Check.Tracks K Eq (indexValue e.toTree check) (indexValue e'.toTree check') a a' := by
  have hsum : ∀ {c c' : Code}, c.Reworded R c' →
      Check.Tracks K Eq (c.toTree.literalSum? : Check (Option Tree))
        (c'.toTree.literalSum? : Check (Option Tree)) a a' := fun {c c'} hc => by
    rw [Tree.literalSum?, Tree.literalSum?, hc.literals_eq]
    exact .of_eq rfl
  cases e <;> cases e' <;> exact hcheck.bind fun _ _ hc => hsum hc

omit h in
theorem checkBounds_tracks (dimensions : List Tree) (position : Nat)
    {value value' : Check (Option Tree)} (hvalue : Check.Tracks K Eq value value' a a') :
    Check.Tracks K Eq (checkBounds dimensions position value)
      (checkBounds dimensions position value') a a' := by
  cases dimensions with
  | nil => exact .pure rfl
  | cons dimension rest =>
    refine .bind_eq rfl fun bounds => hvalue.bind_same fun index => ?_
    cases index with
    | none => exact .pure rfl
    | some index =>
      refine .bind_eq rfl fun _ => .ite_stops ?_ fun _ => .pure rfl
      simp

/-- Code is generated in both runs or in neither. -/
theorem Beside.generate {t t' : Tree}
    (ht : MiniPascal.Tracks K (Code.Reworded R) t.generate t'.generate) :
    Check.Tracks K (Code.Reworded R) (generate t) (generate t') a a' := by
  have hread : Check.Tracks K (fun s s' => Option.Rel (BodyAlike R) s.code s'.code) read read
      a a' :=
    MiniPascal.Tracks.ok h.alike.code
  refine hread.bind fun s s' hcode => ?_
  generalize s.code = code at hcode ⊢
  generalize s'.code = code' at hcode ⊢
  cases hcode with
  | some => exact .of_stops .fail
  | none => exact ht.mapError

/-! ### Calls -/

omit h in
theorem ExprsReworded.length_eq {es es' : List Expr} (h : ExprsReworded R es es') :
    (exprTrees es).length = (exprTrees es').length := by
  induction es generalizing es' with
  | nil =>
    cases h
    rfl
  | cons e es ih =>
    cases h with
    | cons _ hes => exact congrArg (· + 1) (ih hes)

/-- The same parameters, with arguments that differ in operators. -/
inductive ArgumentsReworded (R : String → String → Prop) :
    List (Tree × Tree) → List (Tree × Tree) → Prop
  | nil : ArgumentsReworded R [] []
  | cons {e e' : Expr} {rest rest' : List (Tree × Tree)} (parameter : Tree)
      (he : e.Reworded R e') (hrest : ArgumentsReworded R rest rest') :
      ArgumentsReworded R ((parameter, e.toTree) :: rest) ((parameter, e'.toTree) :: rest')

omit h in
theorem ExprsReworded.zip : ∀ {es es' : List Expr}, ExprsReworded R es es' →
    ∀ parameters : List Tree,
      ArgumentsReworded R (parameters.zip (exprTrees es)) (parameters.zip (exprTrees es')) := by
  intro es es' hes parameters
  induction parameters generalizing es es' with
  | nil => exact .nil
  | cons p ps ih =>
    cases hes with
    | nil => exact .nil
    | cons he hes => exact .cons p he (ih hes)

omit h in
theorem ExprsReworded.pairArguments {es es' : List Expr} (hes : ExprsReworded R es es')
    {e e' call call' : Tree} (he : EntryAlike R e e')
    (hcall : call.part "arguments" = .ok (.list (exprTrees es)))
    (hcall' : call'.part "arguments" = .ok (.list (exprTrees es'))) :
    Check.Tracks K (Sum.LiftRel (ArgumentsReworded R) Eq) (pairArguments e call)
      (pairArguments e' call') a a' := by
  unfold Checking.pairArguments
  rw [hcall, hcall', ← he.get?_eq (by decide) (by decide)]
  refine .bind_eq rfl fun _ => .bind_eq rfl fun parameters => ?_
  refine .ite (by rw [hes.length_eq]) (fun _ => ?_) fun _ => ?_
  · exact .pure (.inl (hes.zip parameters))
  · exact .pure (.inr (by rw [hes.length_eq]))

theorem ArgumentsReworded.checkFunctionArguments : ∀ {pairs pairs' : List (Tree × Tree)},
    ArgumentsReworded R pairs pairs' → ∀ name name' : Tree,
      Check.Tracks K Eq (checkFunctionArguments name pairs) (checkFunctionArguments name' pairs')
        a a'
  | _, _, .nil, _, _ => .pure rfl
  | _, _, .cons parameter he hrest, name, name' => by
    refine .bind_eq rfl fun wanted => (he.typeOf h false).bind_same fun found => ?_
    refine .bind_eq rfl fun _ => .bind_eq rfl fun _ => .ite_stops ?_ fun _ =>
      hrest.checkFunctionArguments name name'
    simp

/-- A test for the kind of a routine, which the second run may fail unless the word is kept. -/
theorem Beside.guardKind {e e' : Tree} (he : EntryAlike R e e') {s : String}
    (hs : s ∈ comparedWords) {α β : Type} {Q : α → β → Prop} {c d : Check α} {c' d' : Check β}
    (hc : c.Stops a) (hc' : c'.Stops a') (hd : Check.Tracks K Q d d' a a') :
    Check.Tracks K Q (do if !(← e.get "kind").isTextOf s then c else d)
      (do if !(← e'.get "kind").isTextOf s then c' else d') a a' := by
  refine Check.Tracks.bind (he.kind.mapError) fun t t' ht => ?_
  refine .guard hc hc' (fun hK hno => ?_) fun _ => hd
  rw [Bool.not_eq_true', Bool.eq_false_iff] at hno ⊢
  exact mt (ht.isTextOf (h.kept hK) hs) hno

omit h in
/-- The part of a node that is asked for. -/
theorem part_bind {α β : Type} {Q : α → β → Prop} {t t' p p' : Tree} {key : String}
    {f : Tree → Check α} {g : Tree → Check β} (ht : t.part key = .ok p) (ht' : t'.part key = .ok p')
    (hf : Check.Tracks K Q (f p) (g p') a a') :
    Check.Tracks K Q (do f (← t.part key)) (do g (← t'.part key)) a a' := by
  rw [ht, ht']
  exact hf

theorem Designator.Reworded.checkFunctionCall {es es' : List Expr} (hd : d.Reworded R d')
    (hes : ExprsReworded R es es') :
    Check.Tracks K (Code.Reworded R) (checkFunctionCall (Designator.call d es).toTree)
      (checkFunctionCall (Designator.call d' es').toTree) a a' := by
  refine part_bind rfl rfl ((hd.lookup h).bind fun e e' he => ?_)
  refine .ite (by rw [he.isTruthy_eq]) (fun _ => .of_stops (by simp))
    fun _ => ?_
  refine h.guardKind he (by decide) (by simp)
    (by simp) ?_
  refine (hes.pairArguments he rfl rfl).bind fun x y hxy => ?_
  cases hxy with
  | inl hpairs =>
    refine (hpairs.checkFunctionArguments h _ _).bind_same fun _ => h.generate ?_
    exact Designator.Reworded.generate h.words (.call hd hes) rfl
  | inr => exact .of_stops (by simp)

/-! ### Expressions -/

/-- What stands between two operands. -/
theorem Beside.checkLooseTerm {w w' : String} (hw : R w w') :
    Check.Tracks K Eq (checkLooseTerm (.text w)) (checkLooseTerm (.text w')) a a' := by
  refine .guard (by simp) (by simp) (fun hK hno => ?_)
    fun _ => .pure rfl
  rw [Bool.not_eq_true', Bool.eq_false_iff] at hno ⊢
  refine mt (fun hany => ?_) hno
  obtain ⟨s, hs, htext⟩ := List.any_eq_true.1 hany
  obtain rfl : w = s := of_decide_eq_true htext
  have hsign : ∀ s ∈ Tree.chainOperators, s ∈ comparedWords ∨ Cursor.wordKind s = .identifier := by
    decide
  obtain hcompared | hidentifier := hsign w hs
  · rw [h.kept hK hw hcompared]
    exact hany
  · rw [((h.words.respelled hw).eq_iff hidentifier).1 rfl]
    exact hany

theorem Designator.Reworded.finishFieldAccess (hd : d.Reworded R d') (expected : Tree) (f : String)
    (type : Tree) :
    Check.Tracks K (Code.Reworded R) (finishFieldAccess expected (.text f) d.toTree type)
      (finishFieldAccess expected (.text f) d'.toTree type) a a' := by
  refine .ite_stops ?_ fun _ => h.generate ?_
  · simp
  · exact Designator.Reworded.generate h.words (.field f hd) rfl

omit h in
theorem Operand.Reworded.checkTerms {o o' : Operand} (ho : o.Reworded R o') (expected : Tree)
    (hplain : Check.Tracks K (Code.Reworded R) (checkExpression expected o.toTree)
      (checkExpression expected o'.toTree) a a')
    (hfield : ∀ {d d' : Designator} {f : String}, o = .designator (.field d f) →
      o' = .designator (.field d' f) → Check.Tracks K (Code.Reworded R)
        (checkFieldAccess expected (.text f) d.toTree)
        (checkFieldAccess expected (.text f) d'.toTree) a a')
    {rest rest' : List Tree}
    (hrest : Check.Tracks K Eq (checkTerms expected rest) (checkTerms expected rest') a a') :
    Check.Tracks K Eq (checkTerms expected (o.toTree :: rest))
      (checkTerms expected (o'.toTree :: rest')) a a' := by
  have hfirst := hplain.bind fun _ _ _ => hrest
  cases ho with
  | designator hd =>
    cases hd with
    | name | element => exact hfirst
    | field => exact (hfield rfl rfl).bind fun _ _ _ => hrest
    | call => exact .of_stops (.first (.bind fun _ => .refuse))
  | _ => exact hfirst

theorem Beside.checkFactor (expected value name : Tree) :
    let whole := Tree.factor value name .null (.bool false)
    Check.Tracks K (Code.Reworded R) (checkExpression expected whole)
      (checkExpression expected whole) a a' := by
  intro whole
  have hcode : Check.Tracks K (Code.Reworded R) (Check.generate whole) (Check.generate whole)
      a a' :=
    h.generate ((MiniPascal.Tracks.of_eq rfl).mono fun _ _ hxy => hxy ▸ .same _)
  refine .bind_eq rfl fun _ => ?_
  refine .ite Iff.rfl (fun htrue => absurd htrue Bool.false_ne_true) fun _ => ?_
  refine .ite Iff.rfl (fun _ => ?_) fun _ => .ite Iff.rfl (fun _ => ?_) fun _ => ?_
  · exact .bind_eq (h.checkVariable expected name) fun _ => hcode
  · exact .bind_eq (h.checkEmpty expected) fun _ => hcode
  · exact .bind_eq (checkLiteral_same expected value) fun _ => hcode

end

mutual

theorem Expr.Reworded.checks (h : Beside R K a a') : ∀ {e e' : Expr}, e.Reworded R e' →
    ∀ expected : Tree, Check.Tracks K (Code.Reworded R) (checkExpression expected e.toTree)
      (checkExpression expected e'.toTree) a a'
  | _, _, .operand ho, expected => ho.checks h expected
  | _, _, .compare hl hw hr, expected => by
    have hcode := Expr.Reworded.generate (K := K) h.words (.compare hl hw hr)
    refine .ite (by rw [(h.words.respelled hw).isTruthy_eq]) (fun _ => ?_)
      fun _ => hl.checks h expected
    refine (hl.typeOf h false).bind_same fun _ => (hr.typeOf h false).bind_same fun _ => ?_
    refine .ite_stops ?_ fun _ => ?_
    · simp
    refine (hl.checks h .null).bind fun _ _ _ => (hr.checks h .null).bind fun _ _ _ => ?_
    refine (h.generate hcode).bind fun _ _ hc => ?_
    exact .ite_stops (by simp) fun _ => .pure hc

theorem Operand.Reworded.checks (h : Beside R K a a') : ∀ {o o' : Operand}, o.Reworded R o' →
    ∀ expected : Tree, Check.Tracks K (Code.Reworded R) (checkExpression expected o.toTree)
      (checkExpression expected o'.toTree) a a'
  | _, _, .number n, expected => h.checkFactor expected (.int n) .null
  | _, _, .literal s, expected => h.checkFactor expected (.text s) .null
  | _, _, .truth b, expected => h.checkFactor expected (.bool b) .null
  | _, _, .designator (.name n), expected => h.checkFactor expected .null (.text n)
  | _, _, .designator (@Designator.Reworded.element _ d d' e e' hd he), expected => by
    change Check.Tracks K _ (checkExpression expected (Designator.element d e).toTree)
      (checkExpression expected (Designator.element d' e').toTree) a a'
    rw [checkExpression_element, checkExpression_element]
    refine (Designator.Reworded.accessDimensions h (.element hd he)).bind_same fun dims => ?_
    refine (hd.checkIndices h dims 0).bind_same fun _ => ?_
    refine (checkBounds_tracks _ _ (indexValue_tracks (he.checks h (.text "integer")))).bind_same
      fun _ => ?_
    exact .pure (.same _)
  | _, _, .designator (.field f hd), expected => hd.checkFieldAccess h .null f
  | _, _, .designator (.call hd hes), expected => hd.checkFunctionCall h hes
  | _, _, .group he, expected => by
    have houtline := Operand.Reworded.outline (K := K) h.words (.group he)
    have hinner := he.checks h expected
    refine Check.Tracks.bind houtline.mapError fun _ _ _ => ?_
    refine .ite (by rw [Expr.isTruthy_toTree, Expr.isTruthy_toTree]) (fun _ => ?_) fun hfalse =>
      absurd (Expr.isTruthy_toTree _) hfalse
    cases he <;> exact hinner
  | _, _, .negation ho, expected => by
    have houtline := Operand.Reworded.outline (K := K) h.words (.negation ho)
    have hinner := ho.checks h expected
    refine Check.Tracks.bind houtline.mapError fun _ _ _ => ?_
    refine .ite (by rw [Operand.isTruthy_toTree, Operand.isTruthy_toTree]) (fun _ => ?_)
      fun hfalse => absurd (Operand.isTruthy_toTree _) hfalse
    cases ho with
    | designator hd =>
      cases hd with
      | name => exact hinner
      | _ => exact .pure (.same _)
    | binary => exact .pure (.same _)
    | _ => exact hinner
  | _, _, .binary hl hw hr, expected => by
    have houtline := Operand.Reworded.outline (K := K) h.words (.binary hl hw hr)
    have hcode := Operand.Reworded.generate (K := K) h.words (.binary hl hw hr)
    refine Check.Tracks.bind houtline.mapError fun _ _ _ => ?_
    refine Check.Tracks.bind_same ?_ fun _ => h.generate hcode
    refine hl.checkTerms expected (hl.checks h expected) (hl.checksField h expected) ?_
    refine (h.checkLooseTerm hw).bind_same fun _ => ?_
    exact hr.checkTerms expected (hr.checks h expected) (hr.checksField h expected) (.pure rfl)

theorem Operand.Reworded.checksField (h : Beside R K a a') : ∀ {o o' : Operand}, o.Reworded R o' →
    ∀ (expected : Tree) {d d' : Designator} {f : String}, o = .designator (.field d f) →
      o' = .designator (.field d' f) → Check.Tracks K (Code.Reworded R)
        (checkFieldAccess expected (.text f) d.toTree)
        (checkFieldAccess expected (.text f) d'.toTree) a a'
  | _, _, .designator (.field f hd), expected, _, _, _, rfl, rfl => hd.checkFieldAccess h expected f

theorem Designator.Reworded.checkIndices (h : Beside R K a a') : ∀ {d d' : Designator},
    d.Reworded R d' → ∀ (dimensions : List Tree) (position : Nat), Check.Tracks K Eq
      (checkIndices dimensions position d.toTree) (checkIndices dimensions position d'.toTree) a a'
  | _, _, .name _, _, _ | _, _, .field _ _, _, _ | _, _, .call _ _, _, _ => .pure rfl
  | _, _, .element hd he, dimensions, position => by
    rw [checkIndices_element, checkIndices_element]
    refine (hd.checkIndices h dimensions position).bind_same fun _ => ?_
    exact checkBounds_tracks _ _ (indexValue_tracks (he.checks h (.text "integer")))

theorem Designator.Reworded.checkFieldAccess (h : Beside R K a a') : ∀ {d d' : Designator},
    d.Reworded R d' → ∀ (expected : Tree) (f : String), Check.Tracks K (Code.Reworded R)
      (checkFieldAccess expected (.text f) d.toTree)
      (checkFieldAccess expected (.text f) d'.toTree) a a'
  | _, _, .name n, expected, f =>
    (h.variableField n (.text f)).bind_same
      (Designator.Reworded.finishFieldAccess h (.name n) expected f)
  | _, _, .field inner hd, expected, f =>
    (hd.nestedField h (.text inner) (.text f)).bind_same
      (Designator.Reworded.finishFieldAccess h (.field inner hd) expected f)
  | _, _, .call _ _, _, _ => .of_stops .refuse
  | _, _, .element hd he, expected, f => by
    rw [checkFieldAccess_element, checkFieldAccess_element]
    refine (Designator.Reworded.accessDimensions h (.element hd he)).bind_same fun dims => ?_
    refine (hd.checkIndices h dims 0).bind_same fun _ => ?_
    refine (checkBounds_tracks _ _ (indexValue_tracks (he.checks h (.text "integer")))).bind_same
      fun _ => ?_
    exact (Designator.Reworded.elementField h (.element hd he) (.text f)).bind_same
      (Designator.Reworded.finishFieldAccess h (.element hd he) expected f)

end

end MiniPascal
