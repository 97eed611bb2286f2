import MiniPascal.Proofs.Analysis.Arithmetic

/-!
# Constants and Initialised Variables

The value of a constant and the first value of a variable are checked apart from each other.

* `constantInfo_named_iff`: the values of any other type;
* `declareConstant_iff`: a constant is accepted where the same variable is, with two exceptions.
-/

namespace MiniPascal

open Check Declare Declaring Initial

variable {env : Env} {a : Analysis}

/-- Checks that only read can be made in either order. -/
theorem succeeds_bind_comm {α β γ : Type} (c : Check α) (c' : Check β) (f : β → γ) :
    Succeeds ((do
      let _ ← c
      return f (← c') : Check γ) a) ↔
    Succeeds ((do
      let y ← c'
      let _ ← c
      return f y : Check γ) a) := by
  simp only [Succeeds, bind_eq_ok, pure_eq_ok]
  constructor
  · rintro ⟨_, x, hx, y, hy, -⟩
    exact ⟨_, y, hy, x, hx, rfl⟩
  · rintro ⟨_, y, hy, x, hx, -⟩
    exact ⟨_, x, hx, y, hy, rfl⟩

theorem succeeds_bind_congr {α β : Type} {c : Check α} {f g : α → Check β}
    (h : ∀ x, Succeeds (f x a) ↔ Succeeds (g x a)) :
    Succeeds ((c >>= f) a) ↔ Succeeds ((c >>= g) a) := by
  refine succeeds_bind.trans (Iff.trans ?_ succeeds_bind.symm)
  exact exists_congr fun x => and_congr_right fun _ => h x

/-- In a declaration of constants the values are counted first, elsewhere they are first put into
their checked form. -/
theorem describeArray_constant_iff {element dimensions initial : Tree}
    {transform : Tree → List Tree → Check Tree} {check : List Tree → Check Nat}
    (hinitial : initial.isNull = false) :
    Succeeds (describeArray .constant element dimensions initial transform check a) ↔
      Succeeds (describeArray .storage element dimensions initial transform check a) := by
  refine succeeds_bind_congr fun dims => succeeds_bind_congr fun size => ?_
  simp only [hinitial, Bool.not_false, Bool.false_eq_true, if_false, if_true]
  exact succeeds_bind_comm _ _ _

/-- The declaration gives an initial value: behind a name of a type, or in an array type. -/
def DeclaredType.HasValue (value : Option ConstValue) : DeclaredType → Prop
  | .named _ => value.isSome = true
  | .array type => type.initial.isSome = true

/-- The value is a text of just one character. -/
def ConstValue.IsCharacter : ConstValue → Prop
  | .literal s => ∃ c, s.toList = [c]
  | _ => False

variable {t n : String} {v : ConstValue} {value : Option ConstValue} {type : DeclaredType}

theorem toTree_of_initial {array : ArrayType} {values : List ConstValue}
    (h : array.initial = some values) :
    array.toTree = .arrayType (.list (array.dimensions.map dimensionTree)) (.text array.element)
      (.list (constTrees values)) := by
  rw [ArrayType.toTree, h]
  rfl

theorem variableInfo_basic_decides {b : BasicType} (hb : BasicType.ofName? t = some b)
    (v : ConstValue) :
    (variableInfo (.text t) v.toTree).Decides a (b.admits v.toTree = true)
      (.dict [("type", .text t), ("value", v.toTree)]) := by
  refine .step_bind (congrArg _ hb) (.ite (fun hnull => ?_) fun _ => .ite .pure .refuse)
  cases v <;> cases hnull

/-- A constant has to be just one character where a variable may be any text. -/
theorem constantInfo_basic_decides {b : BasicType} (hb : BasicType.ofName? t = some b)
    (v : ConstValue) : ∃ info, (constantInfo (.tuple [.text t, v.toTree])).Decides a
      (b.admits v.toTree = true ∧ (b = .char → v.IsCharacter)) info := by
  by_cases hadmits : b.admits v.toTree = true
  swap
  · refine ⟨.null, .step_bind rfl (.step_bind rfl (.step_bind (congrArg _ hb) ?_))⟩
    refine .ite (fun _ => .refuse_bind fun h => hadmits h.1) fun h => ?_
    exact absurd (by simpa using h) hadmits
  have hpasses : ¬(!b.admits v.toTree) = true := by simpa using hadmits
  cases b with
  | char =>
    cases v with
    | literal s =>
      by_cases hone : ∃ c, s.toList = [c]
      · obtain ⟨c, hc⟩ := hone
        refine ⟨.dict [("type", .text t), ("value", .int c.toNat)], ?_⟩
        refine .step_bind rfl (.step_bind rfl (.step_bind (congrArg _ hb) ?_))
        refine .ite (absurd · hpasses) fun _ => ?_
        simp only [ConstValue.toTree, hc]
        exact .pure ⟨rfl, fun _ => ⟨c, hc⟩⟩
      · refine ⟨.null, .step_bind rfl (.step_bind rfl (.step_bind (congrArg _ hb) ?_))⟩
        refine .ite (absurd · hpasses) fun _ => ?_
        dsimp only [ConstValue.toTree]
        split
        · exact absurd ⟨_, ‹_›⟩ hone
        · exact .refuse fun h => hone (h.2 rfl)
    | _ => cases hadmits
  | _ =>
    refine ⟨.dict [("type", .text t), ("value", v.toTree)], ?_⟩
    refine .step_bind rfl (.step_bind rfl (.step_bind (congrArg _ hb) ?_))
    exact .ite (absurd · hpasses) fun _ => .pure ⟨hadmits, fun h => by cases h⟩

/-- Only record types have fields that a record can be checked against. -/
theorem checkRecord_stops {m : Meaning} {record : Tree} (h : m.Describes n record)
    (hm : m.isRecordType = false) (fs : List Tree) : (checkRecord record (.list fs)).Stops a := by
  refine .first fun infos hinfos => ?_
  obtain ⟨fields, hfields, hinfos⟩ := bind_eq_ok.1 hinfos
  cases h with
  | recordType => cases hm
  | _ =>
    obtain rfl := Except.ok.inj hfields
    exact Stops.bind (fun _ => by simp) _ hinfos

theorem filledType_text : filledType (.text t) a = .ok (.text t) := rfl

section Named

variable {m : Meaning} {record : Tree} (hb : BasicType.ofName? t = none)
include hb

theorem constantInfo_named_iff (hrecord : m.Describes t record)
    (hlookup : lookup (.text t) a = .ok record) :
    Succeeds (constantInfo (.tuple [.text t, v.toTree]) a) ↔
      ∃ fs, v = .record fs ∧ Succeeds (checkRecord record (.list (fieldTrees fs)) a) := by
  refine (succeeds_step rfl).trans ((succeeds_step rfl).trans ?_)
  refine (succeeds_step (congrArg _ hb)).trans ((succeeds_after hlookup).trans ?_)
  rw [if_pos hrecord.isTruthy]
  cases v with
  | record fs => simp [ConstValue.toTree]
  | _ => exact iff_of_false (Stops.bind fun _ => .refuse).not_succeeds (by simp)

theorem variableInfo_named_iff (hrecord : m.Describes t record)
    (hlookup : lookup (.text t) a = .ok record) :
    Succeeds (variableInfo (.text t) v.toTree a) ↔
      ∃ fs, v = .record fs ∧ Succeeds (checkRecord record (.list (fieldTrees fs)) a) := by
  refine (succeeds_step (congrArg _ hb)).trans ((succeeds_after filledType_text).trans ?_)
  refine (succeeds_after hlookup).trans ((succeeds_step hrecord.isRecordEntry).trans ?_)
  cases hm : m.isRecordType with
  | false =>
    refine iff_of_false (Stops.bind fun _ => .refuse).not_succeeds ?_
    rintro ⟨fs, -, info, hinfo⟩
    exact checkRecord_stops hrecord hm _ info hinfo
  | true =>
    cases v with
    | record fs =>
      refine (Succeeds.bind_iff_and fun _ _ => iff_true_intro ⟨_, rfl⟩).trans ?_
      simp
    | _ => exact iff_of_false (Stops.bind fun _ => by simp).not_succeeds (by simp)

theorem constantInfo_of_lookup_eq_null (hlookup : lookup (.text t) a = .ok .null) :
    Succeeds (constantInfo (.tuple [.text t, v.toTree]) a) :=
  ⟨.null, ok_step rfl (ok_step rfl (ok_step (congrArg _ hb) (ok_bind hlookup rfl)))⟩

theorem variableInfo_stops (hlookup : lookup (.text t) a = .ok .null) :
    ¬Succeeds (variableInfo (.text t) v.toTree a) := by
  refine ((succeeds_step (congrArg _ hb)).trans (succeeds_after filledType_text)).not.2 ?_
  refine ((succeeds_after hlookup).trans (succeeds_step (x := false) rfl)).not.2 ?_
  exact (Stops.bind fun _ => .refuse).not_succeeds

end Named

/-! ### Declarations -/

theorem constantInfo_iff (h : a.Sees env) (htype : type.HasValue value) :
    (Succeeds (constantInfo (.tuple [type.toTree, Tree.ofOption (value.map ConstValue.toTree)]) a) ↔
      Succeeds (variableInfo type.toTree (Tree.ofOption (value.map ConstValue.toTree)) a) ∧
          (type = .named "char" → ∃ v ∈ value, v.IsCharacter) ∨
        type.constant env = .unknown) ∧
    (type.constant env = .unknown →
      ¬Succeeds (variableInfo type.toTree (Tree.ofOption (value.map ConstValue.toTree)) a)) := by
  cases type with
  | array type =>
    obtain ⟨values, hvalues⟩ := Option.isSome_iff_exists.1 htype
    simp only [DeclaredType.constant, reduceCtorEq, false_implies, and_true, or_false,
      DeclaredType.toTree, toTree_of_initial hvalues]
    refine (succeeds_step rfl).trans ((succeeds_step rfl).trans ((succeeds_step rfl).trans ?_))
    refine (describeArray_constant_iff rfl).trans (Iff.symm ?_)
    refine (succeeds_step rfl).trans ?_
    exact succeeds_after (c := filledType (.arrayType _ _ (.list _))) rfl
  | named t =>
    obtain ⟨v, rfl⟩ := Option.isSome_iff_exists.1 htype
    cases hb : BasicType.ofName? t with
    | some b =>
      have hconstant : DeclaredType.constant env (.named t) = .value (.named t) :=
        if_pos (by simp [Env.knowsType, hb])
      obtain ⟨info, hinfo⟩ := constantInfo_basic_decides hb v (a := a)
      obtain rfl := ofName?_eq_some hb
      have hchar : DeclaredType.named b.name = .named "char" ↔ b = .char := by
        rw [DeclaredType.named.injEq]
        cases b <;> decide
      simp only [hconstant, reduceCtorEq, or_false, false_implies, and_true]
      refine hinfo.answers.1.trans ((and_congr (variableInfo_basic_decides hb v).answers.1.symm ?_))
      simp [hchar]
    | none =>
      rcases h.lookup_eq t with ⟨hnone, hlookup⟩ | ⟨m, record, hm, hlookup, hrecord⟩
      · have hconstant : DeclaredType.constant env (.named t) = .unknown :=
          if_neg (by simp [Env.knowsType, Env.has, hb, hnone])
        have hvariable := variableInfo_stops (v := v) hb hlookup
        refine ⟨iff_of_true ?_ (.inr hconstant), fun _ => hvariable⟩
        exact constantInfo_of_lookup_eq_null hb hlookup
      · have hconstant : DeclaredType.constant env (.named t) = .value (.named t) :=
          if_pos (by simp [Env.knowsType, Env.has, hm])
        have hchar : DeclaredType.named t ≠ .named "char" := by
          rintro ⟨⟩
          cases hb
        simp only [hconstant, hchar, reduceCtorEq, or_false, false_implies, and_true]
        exact (constantInfo_named_iff hb hrecord hlookup).trans
          (variableInfo_named_iff hb hrecord hlookup).symm

theorem exists_runs_declare_iff {info : Tree} : (∃ a', Runs (declare (.text n) info) a () a') ↔
    n ∉ (a.scopes.symbolsOf a.scopes.current).map Prod.fst := by
  constructor
  · rintro ⟨a', h⟩
    obtain ⟨key, hkey, hnew, -⟩ := declareIn_eq_runs (runs_get_bind.1 h)
    obtain rfl : n = key := Except.ok.inj hkey
    exact hnew
  · intro hnew
    obtain ⟨scopes, hdeclared⟩ : ∃ scopes,
        a.scopes.declareIn? a.scopes.current n info = some scopes :=
      ⟨_, Scopes.declareIn?_eq_some.2 ⟨hnew, rfl⟩⟩
    refine ⟨{ a with scopes }, runs_get_bind.2 (runs_check_bind.2 ⟨n, rfl, runs_get_bind.2 ?_⟩)⟩
    rw [hdeclared]
    exact runs_modify.2 rfl

theorem exists_runs_declareConstant_iff {given : Tree} :
    (∃ a', Runs (declareConstant (.text n) given) a () a') ↔ Succeeds (constantInfo given a) ∧
      n ∉ (a.scopes.symbolsOf a.scopes.current).map Prod.fst := by
  constructor
  · rintro ⟨a', h⟩
    obtain ⟨info, hinfo, hdeclare⟩ := runs_check_bind.1 h
    exact ⟨⟨info, hinfo⟩, exists_runs_declare_iff.1 ⟨a', hdeclare⟩⟩
  · rintro ⟨⟨info, hinfo⟩, hnew⟩
    obtain ⟨a', hdeclare⟩ := exists_runs_declare_iff.2 hnew
    exact ⟨a', runs_check_bind.2 ⟨info, hinfo, hdeclare⟩⟩

theorem exists_runs_declareVariable_iff {kept initial : Tree} (h : filledType kept a = .ok kept) :
    (∃ t a', Runs (declareVariable (.text n) kept initial) a t a') ↔
      Succeeds (variableInfo kept initial a) ∧
        n ∉ (a.scopes.symbolsOf a.scopes.current).map Prod.fst := by
  constructor
  · rintro ⟨t, a', hruns⟩
    obtain ⟨t, ht, hruns⟩ := runs_check_bind.1 hruns
    obtain rfl : kept = t := Except.ok.inj (h.symm.trans ht)
    obtain ⟨info, hinfo, hruns⟩ := runs_check_bind.1 hruns
    obtain ⟨_, mid, hdeclare, -⟩ := runs_bind.1 hruns
    exact ⟨⟨info, hinfo⟩, exists_runs_declare_iff.1 ⟨mid, hdeclare⟩⟩
  · rintro ⟨⟨info, hinfo⟩, hnew⟩
    obtain ⟨a', hdeclare⟩ := exists_runs_declare_iff.2 hnew
    refine ⟨kept, a', runs_check_bind.2 ⟨kept, h, runs_check_bind.2 ⟨info, hinfo, ?_⟩⟩⟩
    exact runs_bind.2 ⟨(), a', hdeclare, rfl⟩

theorem DeclaredType.HasValue.filledType_eq (h : type.HasValue value) :
    filledType type.toTree a = .ok type.toTree := by
  cases type with
  | named t => rfl
  | array type =>
    obtain ⟨values, hvalues⟩ := Option.isSome_iff_exists.1 h
    rw [DeclaredType.toTree, toTree_of_initial hvalues]
    rfl

/-- In every scope, a constant with a value is accepted where the variable of that type and value
is, but a constant character is only one character long, where a variable is any text; and a
constant of an unknown type is accepted with any value, where a variable of it never is. -/
theorem declareConstant_iff (hvisible : VisibleIn env a) (n : String)
    (htype : type.HasValue value) :
    ((∃ a', Runs (declareConstant (.text n)
        (.tuple [type.toTree, Tree.ofOption (value.map ConstValue.toTree)])) a () a') ↔
      (∃ t a', Runs (declareVariable (.text n) type.toTree
          (Tree.ofOption (value.map ConstValue.toTree))) a t a') ∧
        (type = .named "char" → ∃ v ∈ value, v.IsCharacter) ∨
      type.constant env = .unknown ∧
        n ∉ (a.scopes.symbolsOf a.scopes.current).map Prod.fst) ∧
    (type.constant env = .unknown →
      ¬∃ t a', Runs (declareVariable (.text n) type.toTree
        (Tree.ofOption (value.map ConstValue.toTree))) a t a') := by
  obtain ⟨hiff, hunknown⟩ := constantInfo_iff hvisible.fits htype
  rw [exists_runs_declareConstant_iff, exists_runs_declareVariable_iff htype.filledType_eq, hiff]
  refine ⟨?_, fun h hvariable => hunknown h hvariable.1⟩
  rw [or_and_right, and_right_comm]

/-- Where no type is declared, a constant of an unknown type is accepted, a variable is not. -/
theorem declareConstant_iff_unknownType :
    (∃ a', Runs (declareConstant (.text "x") (.tuple [.text "foo", .int 1])) .start () a') ∧
      ¬∃ t a', Runs (declareVariable (.text "x") (.text "foo") (.int 1)) .start t a' := by
  have hunknown : DeclaredType.constant [] (.named "foo") = .unknown := rfl
  have htype : DeclaredType.HasValue (some (.number 1)) (.named "foo") := rfl
  obtain ⟨hconstant, hvariable⟩ := declareConstant_iff .start "x" htype
  exact ⟨hconstant.2 (.inr ⟨hunknown, by decide⟩), hvariable hunknown⟩

end MiniPascal
