import MiniPascal.Proofs.Analysis.Arithmetic

/-!
# Types of Fields

The type of a field is found in two ways: by the check of an access, which refuses what it cannot
resolve, and by a question for the type, which has the absent value as its answer then. For a field
of a field the check asks the question.

* `checkFieldAccess_iff`: the answer is the declared type of the field, and the check passes for
  just this type.
-/

namespace MiniPascal

open Check Checking Typing Declaring

section Resolvers

variable {env : Env} {a : Analysis} {f : Tree}

/-! ### What is found answers the question -/

/-- A field that must be in a type is the one that is asked for. -/
theorem requireField_ensures {type : Tree} {other missing : Tree → Check Tree}
    (hother : ∀ record, (other record).Stops a) (hmissing : ∀ record, (missing record).Stops a) :
    Ensures (do
      let record ← lookup type
      if !(← record.isRecordEntry) then other record
      else requireField record f (missing record)) a fun t => fieldTypeIn type f a = .ok t := by
  refine .bind fun record hlookup => .bind fun isRecord hentry => ?_
  cases isRecord with
  | false => exact .of_stops (hother record)
  | true =>
    refine .bind fun found hfound t ht => ok_bind hlookup (ok_bind hentry (ok_bind hfound ?_))
    cases found with
    | none => exact absurd ht (hmissing record t)
    | some info => exact ht

theorem variableField_ensures (n : String) :
    (variableField n f).Ensures a fun t => fieldType f (.text n) a = .ok t := by
  refine .bind fun symbol hsymbol => .ite (fun _ => .refuse_bind) fun hknown => ?_
  refine .bind fun type htype => .ite (fun _ => .refuse_bind) fun hnamed => ?_
  refine (requireField_ensures (fun _ => by simp) fun _ => by simp).mono fun t ht =>
    ok_bind hsymbol ?_
  rw [if_neg hknown]
  refine ok_bind htype ?_
  rwa [if_pos (by simpa using hnamed)]

theorem elementField_ensures (base : Designator) (index : Expr) :
    (elementField (Designator.element base index).toTree f).Ensures a fun t =>
      fieldType f (Designator.element base index).toTree a = .ok t := by
  refine .bind fun found hfound => .bind fun type htype => .ite (fun _ => .refuse_bind) fun _ => ?_
  refine (requireField_ensures (fun _ => by simp) fun _ => by simp).mono fun t ht => ?_
  obtain ⟨flat, hflat, hfound⟩ := bind_eq_ok.1 hfound
  obtain ⟨symbol, hsymbol, hfound⟩ := bind_eq_ok.1 hfound
  refine ok_bind hflat (ok_bind hsymbol ?_)
  split at hfound
  · cases hfound
  next hknown =>
    obtain ⟨info, hinfo, hfound⟩ := bind_eq_ok.1 hfound
    obtain ⟨word, hword, hfound⟩ := bind_eq_ok.1 hfound
    split at hfound
    · cases hfound
    next harray =>
      obtain rfl := pure_eq_ok.1 hfound
      rw [if_neg hknown]
      refine ok_bind hinfo (ok_bind hword ?_)
      rw [if_pos (by simpa using harray)]
      exact ok_bind htype ht

theorem nestedField_ensures (outer inner : Tree) :
    (nestedField outer inner f).Ensures a fun t =>
      fieldType f (.fieldAccess outer inner) a = .ok t := by
  refine .bind fun type htype => .ite (fun _ => .of_stops (by simp)) fun hnamed => ?_
  refine (requireField_ensures (fun _ => by simp) fun _ => by simp).mono fun t ht =>
    ok_bind htype ?_
  rwa [if_pos (by simpa using hnamed)]

theorem finishFieldAccess_iff {expected record type : Tree} :
    (∃ code, finishFieldAccess expected f record type a = .ok code) ↔
      (expected.isTruthy = true → type.same expected = true) ∧
        ∃ code, generate (.fieldAccess record f) a = .ok code := by
  unfold finishFieldAccess
  split
  next h =>
    simp only [Bool.and_eq_true, Bool.not_eq_true'] at h
    refine iff_of_false ?_ fun hall => ?_
    · rintro ⟨code, hcode⟩
      exact (Stops.bind fun _ => by simp) code hcode
    · rw [hall.1 h.1] at h
      cases h.2
  next h => exact (and_iff_right fun htruthy => by simpa [htruthy] using h).symm

/-! ### Declared types -/

/-- Nothing can be asked about a constant of an unknown type. -/
theorem Designator.startsKnown_of_fieldType (h : a.Sees env) {f t : Tree} :
    ∀ {d : Designator}, fieldType f d.toTree a = .ok t → d.StartsKnown env
  | .name n, hfield => by
    intro hunknown
    rcases h.lookup_eq n with ⟨hnone, -⟩ | ⟨m, entry, hm, hlookup, hentry⟩
    · cases hnone.symm.trans hunknown
    · obtain rfl := Option.some.inj (hunknown.symm.trans hm)
      cases hentry
      cases (bind_of_ok hlookup).symm.trans hfield
  | .element base index, hfield => by
    obtain ⟨flat, hflat, hfield⟩ := bind_eq_ok.1 hfield
    have hroot : base.root? = some flat.1 := (flatAccess_settles (.element base index)).1 flat hflat
    refine Designator.startsKnown_of_root (d := base) hroot fun hunknown => ?_
    rcases h.lookup_eq flat.1 with ⟨hnone, -⟩ | ⟨m, entry, hm, hlookup, hentry⟩
    · cases hnone.symm.trans hunknown
    · obtain rfl := Option.some.inj (hunknown.symm.trans hm)
      cases hentry
      cases (bind_of_ok hlookup).symm.trans hfield
  | .field base inner, hfield => by
    obtain ⟨type, htype, -⟩ := bind_eq_ok.1 hfield
    exact Designator.startsKnown_of_fieldType h (d := base) htype
  | .call _ _, _ => trivial

/-- Whatever type is expected, the same type is found first. It answers the question, and it is the
declared one. -/
theorem checkFieldAccess_eq (h : a.Sees env) (d : Designator) (f : String) :
    ∃ resolved : Check Tree,
      (resolved.Ensures a fun t =>
        fieldType (.text f) d.toTree a = .ok t ∧ d.IsField env f t) ∧
      ∀ expected, checkFieldAccess expected (.text f) d.toTree a =
        (resolved >>= finishFieldAccess expected (.text f) d.toTree) a := by
  cases d with
  | name n =>
    refine ⟨_, fun t ht => ?_, fun _ => rfl⟩
    have hanswer := variableField_ensures n t ht
    have hknown := Designator.startsKnown_of_fieldType (d := .name n) h hanswer
    exact ⟨hanswer, (variableField_settles h hknown f).1 t ht⟩
  | element base index =>
    refine ⟨do
      let dimensions ← accessDimensions (Designator.element base index).toTree
      let found ← checkIndices dimensions 0 base.toTree
      let _ ← checkBounds found.1 found.2
        (indexValue index.toTree (checkExpression (.text "integer") index.toTree))
      elementField (Designator.element base index).toTree (.text f), ?_, fun expected => ?_⟩
    · refine .bind fun _ _ => .bind fun _ _ => .bind fun _ _ t ht => ?_
      have hanswer := elementField_ensures base index t ht
      have hknown : base.StartsKnown env :=
        Designator.startsKnown_of_fieldType (d := .element base index) h hanswer
      exact ⟨hanswer, (elementField_settles h hknown f).1 t ht⟩
    · rw [checkFieldAccess_element]
      simp only [bind_assoc]
  | field base inner =>
    refine ⟨_, fun t ht => ?_, fun _ => rfl⟩
    have hanswer := nestedField_ensures base.toTree (.text inner) t ht
    have hknown : base.StartsKnown env :=
      Designator.startsKnown_of_fieldType (d := .field base inner) h hanswer
    exact ⟨hanswer, (nestedField_settles h hknown inner f).1 t ht⟩
  | call base arguments => exact ⟨refuse .badRecordObject, .refuse, fun _ => rfl⟩

/-- Where declarations have been accepted, a field access that passes without an expected type has
an answer to the question for its type: the declared type of the first field of that name in the
record that the place stands for. The access passes for an expected type if and only if it passes
without one and this is the type. -/
theorem checkFieldAccess_iff (hvisible : VisibleIn env a) (d : Designator) (f : String) :
    (∀ code, checkFieldAccess .null (.text f) d.toTree a = .ok code → ∃ type,
      fieldType (.text f) d.toTree a = .ok (.text type) ∧ d.IsField env f (.text type)) ∧
    ∀ t : Tree, t.isTruthy = true →
      ((∃ code, checkFieldAccess t (.text f) d.toTree a = .ok code) ↔
        (∃ code, checkFieldAccess .null (.text f) d.toTree a = .ok code) ∧
          fieldType (.text f) d.toTree a = .ok t) := by
  obtain ⟨resolved, hensures, heq⟩ := checkFieldAccess_eq hvisible.fits d f
  have hpasses : ∀ expected, (∃ code, checkFieldAccess expected (.text f) d.toTree a = .ok code) ↔
      ∃ t, resolved a = .ok t ∧ (expected.isTruthy = true → t.same expected = true) ∧
        ∃ code, generate (.fieldAccess d.toTree (.text f)) a = .ok code := by
    intro expected
    simp only [heq, bind_eq_ok, ← finishFieldAccess_iff]
    exact exists_comm.trans (by simp)
  constructor
  · intro code hcode
    obtain ⟨t, ht, -⟩ := (hpasses .null).1 ⟨code, hcode⟩
    obtain ⟨hanswer, hfield⟩ := hensures t ht
    obtain ⟨_, _, τ, _, rfl⟩ := id hfield
    exact ⟨τ.word, hanswer, hfield⟩
  · intro expected htruthy
    rw [hpasses, hpasses]
    constructor
    · rintro ⟨t, ht, hsame, hcode⟩
      obtain ⟨hanswer, _, _, τ, _, rfl⟩ := hensures t ht
      rw [Tree.eq_of_same_text (hsame htruthy)]
      exact ⟨⟨_, ht, (absurd · Bool.false_ne_true), hcode⟩, hanswer⟩
    · rintro ⟨⟨t, ht, -, hcode⟩, hexpected⟩
      obtain ⟨hanswer, _, _, τ, _, rfl⟩ := hensures t ht
      obtain rfl := Except.ok.inj (hanswer.symm.trans hexpected)
      exact ⟨_, ht, fun _ => Tree.same_text.2 rfl, hcode⟩

end Resolvers

/-- A record in a record, and a table of such records. -/
def nestedRecords : List Decl :=
  [.type "point" (.record [("x", .named "integer"), ("y", .named "integer")]),
    .type "spot" (.record [("name", .named "string"), ("at", .named "point")]),
    .var "spots" (.array ⟨(1, 2), [], "spot", none⟩) none false]

/-- The place `spots[1].at`, which has a field `x`. -/
def nestedPlace : Designator := .field (.element (.name "spots") (.operand (.number 1))) "at"

theorem checkFieldAccess_iff_nestedPlace : ∃ env a, VisibleIn env a ∧
    fieldType (.text "x") nestedPlace.toTree a = .ok (.text "integer") := by
  have hrun : Runs (declareAll (.list (declTrees nestedRecords))) .start () _ := rfl
  have hvisible := VisibleIn.declare .start hrun
  have hpasses : (checkFieldAccess (.text "integer") (.text "x") nestedPlace.toTree
      (declareAll (.list (declTrees nestedRecords)) .start).2).toOption.isSome = true := by
    decide +kernel
  obtain ⟨code, hcode⟩ := Option.isSome_iff_exists.1 hpasses
  obtain ⟨-, hanswer⟩ := ((checkFieldAccess_iff hvisible nestedPlace "x").2 (.text "integer") rfl).1
    ⟨code, Except.eq_ok_of_toOption hcode⟩
  exact ⟨_, _, hvisible, hanswer⟩

end MiniPascal
