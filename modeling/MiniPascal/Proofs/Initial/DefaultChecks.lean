import MiniPascal.Proofs.Analysis.InitialValues
import MiniPascal.Proofs.Initial.Defaults

/-!
# Default Values Pass Their Checks

The default values of types are made by one walk over the declared types, and initial values are
checked by another one. Where record types are sound, whatever the first one makes passes the second
one.

* `defaults_pass`: default values of records and arrays pass the checks of such values.
-/

namespace MiniPascal

open Check Initial Declaring Declare

/-! ### Types whose default values pass -/

def TypeExpr.dimensions : TypeExpr → List (Nat × Nat)
  | .array type => type.dimensions
  | _ => []

/-- A declaration of a type. A record type is not named like a basic type, its fields have different
names, and none of its arrays has a negative extent. -/
def Decl.IsSoundType : Decl → Prop
  | .type n (.record fields) => BasicType.ofName? n = none ∧ (fields.map Prod.fst).Nodup ∧
      ∀ f ∈ fields, ∀ d ∈ f.2.dimensions, d.1 ≤ d.2 + 1
  | .type _ _ => True
  | _ => False

/-- The types of fields have names that are visible, other than two names of basic types. -/
def Env.KnowsTypes (env : Env) (fields : List (String × TypeExpr)) : Prop :=
  ∀ f ∈ fields, ∀ t, f.2 = .named t → t = "integer" ∨ t = "string" ∨ env.has t = true

/-- The record types that are visible are sound, and the names of types in them are visible. -/
def Env.IsSound (env : Env) : Prop :=
  ∀ n fields, env.fields? n = some fields →
    (Decl.type n (.record fields)).IsSoundType ∧ env.KnowsTypes fields

section Sound

variable {env : Env} {s s' : Analysis} {n : String}

theorem fieldInfoList_knows (henv : s.Sees env) (fields : List (String × TypeExpr)) :
    (fieldInfoList (memberTrees fields)).Ensures s fun _ => env.KnowsTypes fields := by
  induction fields with
  | nil => exact .pure (List.forall_mem_nil _)
  | cons field fields ih =>
    refine .step_bind rfl (.bind fun first hfirst => .bind fun rest hrest => .pure ?_)
    refine List.forall_mem_cons.2 ⟨?_, ih rest hrest⟩
    intro t ht
    by_contra hnot
    obtain ⟨hinteger, hstring, hhas⟩ : t ≠ "integer" ∧ t ≠ "string" ∧ ¬env.has t = true := by
      simpa only [not_or] using hnot
    have hlookup : lookup (.text t) s = .ok .null := by
      rcases henv.lookup_eq t with ⟨-, hlookup⟩ | ⟨m, _, hm, -⟩
      · exact hlookup
      · exact absurd (by simp [Env.has, hm]) hhas
    rw [ht, TypeExpr.toTree, fieldInfo, if_pos (by simp [Tree.isTextOf, hinteger, hstring]),
      bind_of_ok hlookup] at hfirst
    exact (Stops.bind fun _ => by simp) _ hfirst

theorem Env.has_cons {m : Meaning} {t : String} (h : env.has t = true) :
    Env.has ((n, m) :: env) t = true := by
  rw [Env.has, List.lookup_cons]
  split
  · rfl
  · exact h

/-- One more name keeps record types sound if it is no record type, or a sound one. -/
theorem Env.IsSound.cons (h : env.IsSound) {m : Meaning}
    (hm : ∀ fields, m = .recordType fields →
      (Decl.type n (.record fields)).IsSoundType ∧ env.KnowsTypes fields) :
    Env.IsSound ((n, m) :: env) := by
  have hmore : ∀ {fields}, env.KnowsTypes fields → Env.KnowsTypes ((n, m) :: env) fields :=
    fun hknows f hf t ht => (hknows f hf t ht).imp_right (.imp_right Env.has_cons)
  intro name fields hfields
  rw [Env.fields?_eq_some, List.lookup_cons] at hfields
  split at hfields
  next heq =>
    obtain rfl := eq_of_beq heq
    exact (hm fields (Option.some.inj hfields)).imp_right hmore
  next => exact (h name fields (Env.fields?_eq_some.2 hfields)).imp_right hmore

theorem declareType_isSound (henv : s.Sees env) (h : env.IsSound)
    {type : TypeExpr} (hsound : (Decl.type n type).IsSoundType) {u : Unit}
    (hrun : Runs (declareType (.text n) type.toTree) s u s') :
    ((Decl.type n type).extend env none).IsSound := by
  cases type with
  | named _ | omitted => exact h
  | array type => exact h.cons fun _ heq => by cases heq
  | record fields =>
    obtain ⟨infos, hinfos, -⟩ := runs_check_bind.1 hrun
    refine h.cons fun _ heq => ?_
    obtain rfl := Meaning.recordType.inj heq
    exact ⟨hsound, fieldInfoList_knows henv fields infos hinfos⟩

theorem declareList_isSound : ∀ (ds : List Decl) {env : Env} {s s' : Analysis} {u : Unit},
    s.Sees env → env.IsSound → (∀ d ∈ ds, d.IsSoundType) →
    Runs (declareList none (declTrees ds)) s u s' → (declsEnv env none ds).IsSound
  | [], _, _, _, _, _, h, _, _ => h
  | d :: ds, env, s, s', _, henv, h, hds, hrun => by
    rw [List.forall_mem_cons] at hds
    obtain ⟨filled, s₁, hfirst, hrest⟩ := runs_bind.1 hrun
    obtain ⟨-, henv', -⟩ := declareItem_eachBody d henv .none hfirst
    cases d with
    | type n type =>
      obtain ⟨_, hdeclare, rfl⟩ := runs_bind_pure.1 hfirst
      exact declareList_isSound ds henv' (declareType_isSound henv h hds.1 hdeclare) hds.2 hrest
    | _ => exact hds.1.elim

end Sound

/-! ### Arrays of default values -/

section Filled

variable {s : Analysis} {dims : List (Int × Int)} {element : Check Tree}

/-- Nested lists of one element have the shape of their dimensions. -/
theorem filled_hasShape (hdims : ∀ d ∈ dims, 0 ≤ extentOf d) {v : Tree}
    (h : filled element (boundTrees dims) s = .ok v) :
    v.HasShape (fun x => element s = .ok x) dims := by
  induction dims generalizing v with
  | nil => exact h
  | cons d dims ih =>
    rw [List.forall_mem_cons] at hdims
    rw [filled_cons] at h
    split at h
    next hle =>
      obtain rfl := pure_eq_ok.1 h
      exact ⟨[], rfl, by simp; omega, by simp⟩
    next =>
      obtain ⟨x, hx, h⟩ := bind_eq_ok.1 h
      obtain rfl := pure_eq_ok.1 h
      refine ⟨_, rfl, by simpa using hdims.1, fun item hitem => ?_⟩
      rw [List.eq_of_mem_replicate hitem]
      exact ih hdims.2 hx

theorem exists_filled {x : Tree} (hx : element s = .ok x) (dims : List (Int × Int)) :
    ∃ v, filled element (boundTrees dims) s = .ok v := by
  induction dims with
  | nil => exact ⟨x, hx⟩
  | cons d dims ih =>
    obtain ⟨v, hv⟩ := ih
    rw [filled_cons]
    split
    · exact ⟨_, rfl⟩
    · exact ⟨_, ok_bind hv rfl⟩

/-- Records of the right shape can be put into their checked form if each of them can. -/
theorem transformValues_of_hasShape {record : Tree} {P : Tree → Prop}
    (hP : ∀ v, P v → ∃ w, transformValues record [] v s = .ok w) :
    ∀ {dims : List (Int × Int)} {v : Tree}, v.HasShape P dims →
      ∃ w, transformValues record (boundTrees dims) v s = .ok w
  | [], v, hv => hP v hv
  | _ :: dims, _, ⟨items, rfl, hlength, hitems⟩ => by
    have hnested : ∃ ws, transformNested record (boundTrees dims) items s = .ok ws := by
      clear hlength
      induction items with
      | nil => exact ⟨[], rfl⟩
      | cons item items ih =>
        rw [List.forall_mem_cons] at hitems
        obtain ⟨w, hw⟩ := transformValues_of_hasShape hP hitems.1
        obtain ⟨ws, hws⟩ := ih hitems.2
        exact ⟨w :: ws, ok_bind hw (ok_bind hws rfl)⟩
    obtain ⟨ws, hws⟩ := hnested
    exact ⟨.list ws, ok_bind hws rfl⟩

end Filled

/-! ### Default values of fields and elements -/

section Defaults

variable {env : Env} {s : Analysis} {entries : List (String × Tree)} {value : Tree → Check Tree}
  {t : String} {v : Tree}

/-- The dictionary is accepted as a value of the record type. -/
def PassesAs (s : Analysis) (record : Tree) (entries : List (String × Tree)) : Prop :=
  ∃ w, checkDictionary record (entryChecks entries) s = .ok w

/-- A default value of a type: that of a basic type, or a dictionary that is accepted as a value of
a record type. -/
inductive DefaultOf (s : Analysis) (t : String) : Tree → Prop
  | basic {b : BasicType} (h : BasicType.ofName? t = some b) : DefaultOf s t b.initial
  | record {record : Tree} {fields : List (String × TypeExpr)}
      {entries : List (String × Tree)} (hbasic : BasicType.ofName? t = none) (hname : t ≠ "array")
      (hlookup : lookup (.text t) s = .ok record)
      (hrecord : (Meaning.recordType fields).Describes t record)
      (h : PassesAs s record entries) : DefaultOf s t (.dict entries)

theorem BasicType.admits_initial (b : BasicType) : b.admits b.initial = true := by
  cases b <;> rfl

/-- A default value counts as one element of an array. -/
theorem DefaultOf.checkValues_eq (h : DefaultOf s t v) (level : Nat) :
    checkValues (.text t) level [] v s = .ok 1 := by
  cases h with
  | @basic b hb =>
    have hcheck : checkElement (.text t) level b.initial s = .ok 1 := by
      refine ok_step (congrArg _ hb) ?_
      change (if b.admits b.initial then pure 1 else _ : Check Nat) s = _
      rw [b.admits_initial]
      rfl
    cases b <;> exact hcheck
  | record _ _ hlookup hrecord hpasses =>
    obtain ⟨w, hw⟩ := hpasses
    have helement : elementRecord (.text t) s = .ok _ :=
      ok_bind hlookup (by rw [if_pos hrecord.isTruthy]; rfl)
    exact ok_bind helement (ok_bind hw rfl)

theorem DefaultOf.isNull_of_hasShape : ∀ {dims : List (Int × Int)} {v : Tree},
    v.HasShape (DefaultOf s t) dims → v.isNull = false
  | [], _, .basic (b := b) _ => by cases b <;> rfl
  | [], _, .record .. => rfl
  | _ :: _, _, ⟨_, rfl, _⟩ => rfl

/-! ### Default values of records -/

/-- A default value of a field. -/
def FieldDefault (s : Analysis) : TypeExpr → Tree → Prop
  | .named t, v => DefaultOf s t v
  | .array type, v => v.HasShape (DefaultOf s type.element) type.bounds
  | _, _ => False

/-- The dictionary has a default value for each field, in the order of the fields. -/
def FieldDefaults (s : Analysis) : List (String × TypeExpr) → List (String × Tree) → Prop :=
  List.Forall₂ fun f e => e.1 = f.1 ∧ FieldDefault s f.2 e.2

theorem FieldDefaults.map_fst {fields : List (String × TypeExpr)}
    (h : FieldDefaults s fields entries) : entries.map Prod.fst = fields.map Prod.fst := by
  induction h with
  | nil => rfl
  | cons he _ ih => rw [List.map_cons, List.map_cons, he.1, ih]

theorem FieldDefaults.exists_lookup {fields : List (String × TypeExpr)}
    (h : FieldDefaults s fields entries) (hnodup : (fields.map Prod.fst).Nodup) :
    ∀ f ∈ fields, ∃ v, entries.lookup f.1 = some v ∧ FieldDefault s f.2 v := by
  rw [← h.map_fst] at hnodup
  intro f hf
  obtain ⟨i, hi, rfl⟩ := List.mem_iff_getElem.1 hf
  obtain ⟨hlength, hall⟩ := List.forall₂_iff_get.1 h
  obtain ⟨hname, hvalue⟩ := hall i hi (hlength ▸ hi)
  refine ⟨_, ?_, hvalue⟩
  exact Scopes.lookup_of_mem hnodup (hname ▸ List.getElem_mem (hlength ▸ hi))

theorem setEntry_of_notMem {key : String} (h : key ∉ entries.map Prod.fst) :
    Tree.setEntry key v entries = entries ++ [(key, v)] := by
  induction entries with
  | nil => rfl
  | cons e rest ih =>
    rw [List.map_cons, List.mem_cons, not_or] at h
    rw [Tree.setEntry, if_neg (Ne.symm h.1), ih h.2, List.cons_append]

variable {record : Tree} {fields : List (String × TypeExpr)} {infos : List Tree}

theorem defaultFields_ensures {n : String} (hname : record.entry "name" = .ok (.text n))
    (hvalue : ∀ t v, value (.text t) s = .ok v → DefaultOf s t v)
    (hinfos : List.Forall₂ FieldDescribes fields infos) (hnodup : (fields.map Prod.fst).Nodup)
    (hdims : ∀ f ∈ fields, ∀ type, f.2 = .array type → ∀ d ∈ type.bounds, 0 ≤ extentOf d) :
    ∀ {entries : List (String × Tree)}, (∀ f ∈ fields, f.1 ∉ entries.map Prod.fst) →
      (defaultFields value record infos entries).Ensures s fun all =>
        ∃ new, all = entries ++ new ∧ FieldDefaults s fields new := by
  induction hinfos with
  | nil => exact fun _ => .pure ⟨[], by simp, .nil⟩
  | @cons field info fields infos hfield _ ih =>
    intro entries hnew all hall
    rw [List.map_cons, List.nodup_cons] at hnodup
    rw [List.forall_mem_cons] at hdims hnew
    rcases defaultFields_cons hname hfield with ⟨-, _, herror⟩ | ⟨-, heq⟩
    · cases (herror _ _ _).symm.trans hall
    obtain ⟨v, hv, hall⟩ := bind_eq_ok.1 ((heq _ _ _).symm.trans hall)
    have hdefault : FieldDefault s field.2 v := by
      cases hfield with
      | named name type => exact hvalue type v hv
      | @array name type described _ =>
        exact (filled_hasShape (hdims.1 type rfl) hv).mono fun x => hvalue type.element x
    -- The value of the field comes last, and the values of the others after it.
    rw [setEntry_of_notMem hnew.1] at hall
    obtain ⟨new, rfl, hdefaults⟩ := ih hnodup.2 hdims.2 (fun f hf => by
      rw [List.map_append, List.mem_append, not_or]
      refine ⟨hnew.2 f hf, fun hmem => hnodup.1 ?_⟩
      rw [← List.mem_singleton.1 hmem]
      exact List.mem_map_of_mem hf) all hall
    exact ⟨(field.1, v) :: new, by simp, .cons ⟨rfl, hdefault⟩ hdefaults⟩

theorem lookup_entryChecks (n : String) : ∀ entries : List (String × Tree),
    (entryChecks entries).lookup n = (entries.lookup n).map fun v => (v, arrayCheck v)
  | [] => rfl
  | (name, value) :: rest => by
    rw [entryChecks, List.lookup_cons, List.lookup_cons, lookup_entryChecks n rest]
    split <;> rfl

theorem map_fst_entryChecks : ∀ entries : List (String × Tree),
    (entryChecks entries).map Prod.fst = entries.map Prod.fst
  | [] => rfl
  | (name, value) :: rest => by
    rw [entryChecks, List.map_cons, List.map_cons, map_fst_entryChecks rest]

/-- A dictionary has just its own keys. -/
theorem any_notMem_keys {α : Type} (entries : List (String × α)) :
    ¬ (entries.any (fun e => !(entries.map Prod.fst).contains e.1) ||
      (entries.map Prod.fst).any fun n => (entries.lookup n).isNone) = true := by
  simp only [Bool.or_eq_true, List.any_eq_true, not_or, not_exists, not_and]
  constructor
  · intro e he
    simpa using ⟨e.2, he⟩
  · intro n hn hnone
    obtain ⟨e, he, rfl⟩ := List.mem_map.1 hn
    rw [Option.isNone_iff_eq_none, List.lookup_eq_none_iff] at hnone
    simpa using hnone e he

theorem fieldNames_eq_ok (hinfos : List.Forall₂ FieldDescribes fields infos) :
    (infos.mapM fun info => show Check String from do (← info.entry "field_name").key) s =
      .ok (fields.map Prod.fst) := by
  induction hinfos with
  | nil => rfl
  | cons hfield _ ih =>
    rw [List.mapM_cons]
    exact ok_bind (ok_step hfield.name rfl) (ok_bind ih rfl)

/-- A field that is no array is checked against a basic type, or it has a type that is declared. -/
theorem DefaultOf.field_cases (henv : s.Sees env) (h : DefaultOf s t v)
    (hknown : t = "integer" ∨ t = "string" ∨ env.has t = true) :
    (∃ b, BasicType.ofFieldType? (.text t) = .ok (some b) ∧ b.admits v = true) ∨
      (BasicType.ofFieldType? (.text t) = .ok none ∧ t ≠ "array" ∧
        ∃ entry, lookup (.text t) s = .ok entry ∧ entry.isTruthy = true) := by
  have hfield : BasicType.ofFieldType? (.text t) =
      .ok ((BasicType.ofName? t).filter (· != .char)) := rfl
  cases h with
  | @basic b hb =>
    rw [hfield, hb]
    obtain rfl := ofName?_eq_some hb
    by_cases hchar : b = .char
    · subst hchar
      refine .inr ⟨rfl, by decide, ?_⟩
      have hhas : env.has BasicType.char.name = true := by
        rcases hknown with h | h | h
        · exact absurd h (by decide)
        · exact absurd h (by decide)
        · exact h
      rcases henv.lookup_eq BasicType.char.name with ⟨hnone, -⟩ | ⟨m, entry, -, hlookup, hentry⟩
      · simp [Env.has, hnone] at hhas
      · exact ⟨entry, hlookup, hentry.isTruthy⟩
    · refine .inl ⟨b, ?_, b.admits_initial⟩
      simp [Option.filter, hchar]
  | record hbasic harray hlookup hrecord =>
    refine .inr ⟨?_, harray, _, hlookup, hrecord.isTruthy⟩
    rw [hfield, hbasic]
    rfl

/-! ### Checks of default values -/

variable (henv : s.Sees env)

include henv

theorem exists_fields {record : Tree} (hlookup : lookup (.text t) s = .ok record)
    (hrecord : record.isRecordEntry = .ok true) :
    ∃ fields, env.fields? t = some fields ∧ (Meaning.recordType fields).Describes t record := by
  rcases henv.lookup_eq t with ⟨-, hnone⟩ | ⟨m, entry, hm, hentry, hdescribes⟩
  · cases Except.ok.inj (hnone.symm.trans hlookup)
    exact absurd hrecord (by decide)
  obtain rfl := Except.ok.inj (hentry.symm.trans hlookup)
  rw [hdescribes.isRecordEntry] at hrecord
  cases m with
  | recordType fields => exact ⟨fields, Env.fields?_eq_some.2 hm, hdescribes⟩
  | _ => exact absurd (Except.ok.inj hrecord) Bool.false_ne_true

variable (hsound : env.IsSound)

include hsound

/-- A default value can be put into its checked form where the elements are records. -/
theorem exists_transformValues {record : Tree} (h : DefaultOf s t v)
    (hlookup : lookup (.text t) s = .ok record) (hrecord : record.isRecordEntry = .ok true) :
    ∃ w, transformValues record [] v s = .ok w := by
  cases h with
  | basic hb =>
    -- No record type is named like a basic one.
    obtain ⟨fields, hfields, -⟩ := exists_fields henv hlookup hrecord
    cases (hsound t fields hfields).1.1.symm.trans hb
  | record _ _ hlookup' hdescribes hpasses =>
    obtain rfl := Except.ok.inj (hlookup.symm.trans hlookup')
    exact hpasses

/-- An array of default values is described, with its size. -/
theorem arrayInfo_of_hasShape {dims : List (Int × Int)} (h : v.HasShape (DefaultOf s t) dims) :
    ∃ info, arrayInfo .storage (.text t) (.list (boundTrees dims)) v s = .ok info ∧
      info.get "size" = .ok (.int (dims.map extentOf).prod) := by
  have hnull : (!v.isNull) = true := by rw [DefaultOf.isNull_of_hasShape h, Bool.not_false]
  obtain ⟨n, hn, hcount⟩ := checkValues_of_hasShape (fun level _ hv => hv.checkValues_eq level) 0 h
  obtain ⟨record, isRecord, hlookup, hrecord⟩ : ∃ record isRecord,
      lookup (.text t) s = .ok record ∧ record.isRecordEntry = .ok isRecord := by
    rcases henv.lookup_eq t with ⟨-, hlookup⟩ | ⟨m, entry, -, hlookup, hentry⟩
    · exact ⟨_, _, hlookup, rfl⟩
    · exact ⟨_, _, hlookup, hentry.isRecordEntry⟩
  obtain ⟨w, hw⟩ : ∃ w, (if isRecord && !v.isNull then transformValues record (boundTrees dims) v
      else pure v : Check Tree) s = .ok w := by
    cases isRecord with
    | false => exact ⟨v, rfl⟩
    | true =>
      rw [hnull]
      exact transformValues_of_hasShape (fun v hv =>
        exists_transformValues henv hsound hv hlookup hrecord) h
  refine ⟨.dict [("type", .text "array"), ("element_type", .text t),
    ("size", .int (dims.map extentOf).prod), ("dimensions", .list (boundTrees dims)),
    ("initial_values", w)], ?_, rfl⟩
  refine ok_step rfl (ok_step (arraySize_boundTrees dims) ?_)
  refine ok_bind (ok_bind hlookup (ok_step hrecord hw)) ?_
  rw [if_pos hnull]
  refine ok_bind (x := ()) (ok_bind hn ?_) rfl
  rw [if_neg (not_not.2 hcount)]
  rfl

/-- Default values of the fields pass the check of the fields. -/
theorem checkEntries_of_defaults (record : Tree) (hinfos : List.Forall₂ FieldDescribes fields infos)
    (hknown : env.KnowsTypes fields)
    (hentries : ∀ f ∈ fields, ∃ v, entries.lookup f.1 = some v ∧ FieldDefault s f.2 v) :
    ∀ checked, ∃ all, checkEntries record (entryChecks entries) infos checked s = .ok all := by
  induction hinfos with
  | nil => exact fun checked => ⟨checked, rfl⟩
  | @cons field info fields infos hfield _ ih =>
    intro checked
    rw [Env.KnowsTypes, List.forall_mem_cons] at hknown
    rw [List.forall_mem_cons] at hentries
    obtain ⟨⟨v, hv, hdefault⟩, hentries⟩ := hentries
    obtain ⟨all, hall⟩ := ih hknown.2 hentries (Tree.setEntry field.1 v checked)
    have hlookup : (entryChecks entries).lookup field.1 = some (v, arrayCheck v) := by
      rw [lookup_entryChecks, hv, Option.map_some]
    cases hfield with
    | named name type =>
      have hfield := DefaultOf.field_cases henv hdefault (hknown.1 type rfl)
      rcases hfield with ⟨b, hbasic, hadmits⟩ | ⟨hbasic, harray, entry, hentry, htruthy⟩
      · refine ⟨all, ok_step rfl (ok_step rfl (ok_step rfl ?_))⟩
        rw [hlookup]
        refine ok_step hbasic ?_
        simp only [hadmits, Bool.not_true]
        exact hall
      · -- A field that is a record ends the check.
        refine ⟨Tree.setEntry name v checked, ok_step rfl (ok_step rfl (ok_step rfl ?_))⟩
        have hno : (Tree.text type).isTextOf "array" = false := by
          simpa [Tree.isTextOf] using harray
        rw [hlookup]
        refine ok_step hbasic ?_
        simp only [hno]
        refine ok_bind hentry ?_
        rw [if_pos htruthy]
        rfl
    | @array name type described hdescribes =>
      obtain ⟨described, hdescribed, -⟩ := arrayInfo_of_hasShape henv hsound hdefault
      rw [← type.map_dimensionTree] at hdescribed
      cases hdescribes with
      | mk size values =>
        refine ⟨all, ok_step rfl (ok_step rfl (ok_step rfl ?_))⟩
        rw [hlookup]
        refine ok_step rfl (ok_step rfl (ok_step rfl (ok_step rfl ?_)))
        exact ok_bind (ok_bind hdescribed rfl) hall

/-- The default value of a record passes its check if the default values of other types do. -/
theorem defaultRecordWith_passes {n : String} (hfields : env.fields? n = some fields)
    (hrecord : (Meaning.recordType fields).Describes n record)
    (hvalue : ∀ t v, value (.text t) s = .ok v → DefaultOf s t v) :
    (defaultRecordWith value record).Ensures s fun v =>
      ∃ entries, v = .dict entries ∧ PassesAs s record entries := by
  obtain ⟨⟨-, hnodup, hextents⟩, hknown⟩ := hsound n fields hfields
  have hsub : ∀ f ∈ keptFields fields, f ∈ fields := fun f hf => List.mem_of_mem_filter hf
  have hnodup : ((keptFields fields).map Prod.fst).Nodup :=
    hnodup.sublist ((List.filter_sublist).map _)
  intro v hv
  rcases defaultRecordWith_eq hrecord with ⟨-, _, herror⟩ | ⟨infos, hdescribed, hinfos, heq⟩
  · cases (herror value).symm.trans hv
  obtain ⟨entries, hentries, hv⟩ := bind_eq_ok.1 ((heq value).symm.trans hv)
  obtain rfl := pure_eq_ok.1 hv
  have hdims : ∀ f ∈ keptFields fields, ∀ type, f.2 = .array type →
      ∀ d ∈ type.bounds, 0 ≤ extentOf d := by
    intro f hf type htype d hd
    obtain ⟨e, he, rfl⟩ := List.mem_map.1 hd
    have := hextents f (hsub f hf) e (htype ▸ he)
    simp only [extentOf]
    omega
  obtain ⟨_, rfl, hdefaults⟩ :=
    defaultFields_ensures hrecord.entry_name hvalue hdescribed hnodup hdims (by simp) _ hentries
  obtain ⟨all, hall⟩ := checkEntries_of_defaults henv hsound record hdescribed
    (fun f hf => hknown f (hsub f hf)) (hdefaults.exists_lookup hnodup) []
  refine ⟨_, rfl, .dict [("type", .text "record"), ("record_type", .text n), ("fields", .dict all)],
    ok_bind hinfos (ok_bind (fieldNames_eq_ok hdescribed) ?_)⟩
  rw [if_neg (by
    rw [← hdefaults.map_fst, ← map_fst_entryChecks]
    exact any_notMem_keys _)]
  exact ok_bind hall (ok_step hrecord.entry_name rfl)

/-- Whatever is made for a type is a default value of it. The induction follows the chain of
types. -/
theorem defaultWithin_default : ∀ (fuel : Nat) (t : String) {v : Tree},
    defaultWithin fuel (.text t) .null s = .ok v → DefaultOf s t v
  | 0, _, _, h => by cases h
  | fuel + 1, t, v, h => by
    rcases defaultWithin_succ henv t with ⟨b, hb, heq⟩ |
      ⟨hbasic, harray, fields, record, hfields, hlookup, hrecord, heq⟩ | ⟨-, _, herror⟩
    · obtain rfl := Except.ok.inj ((heq fuel).symm.trans h)
      exact .basic hb
    · obtain ⟨entries, rfl, hpasses⟩ := defaultRecordWith_passes henv hsound hfields hrecord
        (fun u _ => defaultWithin_default fuel u) v ((heq fuel).symm.trans h)
      exact .record hbasic harray hlookup hrecord hpasses
    · cases (herror fuel).symm.trans h

omit henv hsound

/-- Where sound types are declared, the default value of a record type passes the check of its
values, and an array of a type with a default value gets such values and the size it is declared
with. -/
theorem defaults_pass {ds : List Decl} (hds : ∀ d ∈ ds, d.IsSoundType)
    (hrun : Runs (declareAll (.list (declTrees ds))) .start () s) :
    (∀ n record d, lookup (.text n) s = .ok record → record.isRecordEntry = .ok true →
      defaultRecord record s = .ok d → ∃ v, checkRecords record [d] s = .ok [v]) ∧
    ∀ (dims : List (Int × Int)) (t : String) (d : Tree), (∀ d ∈ dims, 0 ≤ extentOf d) →
      defaultValue (.text t) .null s = .ok d →
        ∃ info,
          variableInfo (.arrayType (.list (boundTrees dims)) (.text t) .null) .null s = .ok info ∧
          info.get "size" = .ok (.int (dims.map extentOf).prod) := by
  have henv := (declareList_eachBody ds Analysis.start_fits .none hrun).2
  have hsound := declareList_isSound ds Analysis.start_fits (fun _ _ h => by cases h) hds hrun
  have hvalue : ∀ t v, defaultValue (.text t) .null s = .ok v → DefaultOf s t v :=
    fun t v h => defaultWithin_default henv hsound _ t h
  constructor
  · intro n record d hlookup hrecord hd
    obtain ⟨fields, hfields, hdescribes⟩ := exists_fields henv hlookup hrecord
    obtain ⟨entries, rfl, v, hv⟩ :=
      defaultRecordWith_passes henv hsound hfields hdescribes hvalue d hd
    exact ⟨v, ok_bind hv rfl⟩
  · intro dims t d hdims hd
    obtain ⟨values, hvalues⟩ := exists_filled hd dims
    have hshape := (filled_hasShape hdims hvalues).mono fun v => hvalue t v
    obtain ⟨info, hinfo, hsize⟩ := arrayInfo_of_hasShape henv hsound hshape
    have hfilled : filledType (.arrayType (.list (boundTrees dims)) (.text t) .null) s =
        .ok (.arrayType (.list (boundTrees dims)) (.text t) values) :=
      ok_bind (ok_step rfl hvalues) rfl
    exact ⟨info, ok_step rfl (ok_bind hfilled hinfo), hsize⟩

/-- Points with two coordinates and a path of them. -/
def pathTypes : List Decl :=
  [.type "point" (.record [("x", .named "integer"), ("y", .named "integer")]),
    .type "path" (.record
      [("name", .named "string"), ("points", .array ⟨(1, 3), [], "point", none⟩)])]

theorem defaults_pass_path : (∀ d ∈ pathTypes, d.IsSoundType) ∧ ∃ s record d v,
    Runs (declareAll (.list (declTrees pathTypes))) .start () s ∧
      lookup (.text "path") s = .ok record ∧ defaultRecord record s = .ok d ∧
      checkRecords record [d] s = .ok [v] := by
  have hsound : ∀ d ∈ pathTypes, d.IsSoundType := by
    refine List.forall_mem_cons.2 ⟨?_, List.forall_mem_cons.2 ⟨?_, List.forall_mem_nil _⟩⟩
    · exact ⟨by decide, by decide, by decide⟩
    · exact ⟨by decide, by decide, by decide⟩
  have hrun : Runs (declareAll (.list (declTrees pathTypes))) .start () _ := rfl
  obtain ⟨v, hv⟩ := (defaults_pass hsound hrun).1 "path" _ _ rfl rfl rfl
  exact ⟨hsound, _, _, _, v, hrun, rfl, rfl, hv⟩

end Defaults

end MiniPascal
