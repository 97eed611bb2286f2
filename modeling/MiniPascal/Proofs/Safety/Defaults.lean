import Mathlib.Algebra.Order.BigOperators.Group.List
import Mathlib.Algebra.Order.Ring.Nat
import MiniPascal.Proofs.Analysis.Entries
import MiniPascal.Proofs.Safety.Values

/-!
# Default Values End by Design

Where a declaration gives no values, the parts of arrays and records get those of their types.
Record types lead to the types of their fields, which are visible where the record type is declared,
so this comes to an end before it runs out of names.

* `defaultValue_settles`: a type has a value that is nested as it has to be.
-/

namespace MiniPascal

open Check Initial

/-! ### Record types and the types of their fields -/

/-- The type that an array or a name leads to. -/
def TypeExpr.base? : TypeExpr → Option String
  | .named n => some n
  | .array type => some type.element
  | _ => none

/-- What a name may come to stand for where other names are visible. A record type has a name that
is new, its fields have different names, and their types are known. -/
def Meaning.Continues (env : Env) (n : String) : Meaning → Prop
  | .unknown => False
  | .recordType fields => env.lookup n = none ∧ (fields.map Prod.fst).Nodup ∧
      ∀ f ∈ fields, ∀ t ∈ f.2.base?, env.knowsType t = true
  | _ => True

/-- Every name stands for what it may come to stand for where the names behind it are visible. -/
inductive Env.Regular : Env → Prop
  | nil : Regular []
  | cons {env : Env} {n : String} {m : Meaning} (hm : m.Continues env n) (h : Regular env) :
    Regular ((n, m) :: env)

/-- A record type has a field of the type, or an array of it. -/
def Env.Leads (env : Env) (t u : String) : Prop :=
  BasicType.ofName? t = none ∧
    ∃ fields, env.fields? t = some fields ∧ ∃ f ∈ fields, u ∈ f.2.base?

namespace Env.Regular

variable {env front rear : Env} {n : String} {fields : List (String × TypeExpr)}

theorem of_append (h : Env.Regular (front ++ rear)) : Env.Regular rear := by
  induction front with
  | nil => exact h
  | cons e front ih =>
    cases h with
    | cons _ h => exact ih h

/-- Names that may stand for what they do anywhere become visible. -/
theorem append (h : env.Regular) (hfront : ∀ e ∈ front, ∀ rest, e.2.Continues rest e.1) :
    Env.Regular (front ++ env) := by
  induction front with
  | nil => exact h
  | cons e front ih =>
    rw [List.forall_mem_cons] at hfront
    exact .cons (hfront.1 _) (ih hfront.2)

theorem known (h : env.Regular) : env.lookup n ≠ some .unknown := by
  induction h with
  | nil => exact nofun
  | @cons env name m hm _ ih =>
    rw [List.lookup_cons]
    split
    · rintro ⟨⟩
      exact hm
    · exact ih

theorem nodup (h : env.Regular) (hfields : env.fields? n = some fields) :
    (fields.map Prod.fst).Nodup := by
  rw [Env.fields?_eq_some] at hfields
  induction h with
  | nil => exact absurd hfields nofun
  | @cons env name m hm _ ih =>
    rw [List.lookup_cons] at hfields
    split at hfields
    · obtain rfl := Option.some.inj hfields
      exact hm.2.1
    · exact ih hfields

/-- A record type that is visible at all and has its name among the last names is one of them. -/
theorem fields?_rear (h : Env.Regular (front ++ rear)) (hn : Env.has rear n = true)
    (hfields : Env.fields? (front ++ rear) n = some fields) : Env.fields? rear n = some fields := by
  induction front with
  | nil => exact hfields
  | cons e front ih =>
    obtain ⟨name, m⟩ := e
    cases h with
    | cons hm h =>
      rw [Env.fields?_eq_some, List.cons_append, List.lookup_cons] at hfields
      split at hfields
      next heq =>
        obtain rfl := eq_of_beq heq
        obtain rfl := Option.some.inj hfields
        -- The name would be that of a record type that was visible before it.
        have hnone : rear.lookup n = none := by
          have hnone : (front ++ rear).lookup n = none := hm.1
          rw [List.lookup_append, Option.or_eq_none_iff] at hnone
          exact hnone.2
        simp [Env.has, hnone] at hn
      next => exact ih h (Env.fields?_eq_some.2 hfields)

/-- What holds of a type if it holds of the types that it leads to, holds of all types. The names
say how often types lead to others: those of a record type stand behind it. -/
theorem induction (henv : env.Regular) {P : Nat → String → Prop}
    (hstep : ∀ k t, (∀ u, env.Leads t u → P k u) → P (k + 1) t) {k : Nat} (hk : env.length < k)
    (t : String) : P k t := by
  have hrear : ∀ (rear front : Env), env = front ++ rear → ∀ {k : Nat} {t : String},
      rear.length < k → (rear.knowsType t = true ∨ env.fields? t = none) → P k t := by
    intro rear
    induction rear with
    | nil =>
      intro front _ k t hk ht
      obtain ⟨k, rfl⟩ : ∃ m, k = m + 1 := ⟨k - 1, by omega⟩
      refine hstep k t ?_
      rintro u ⟨hbasic, fields, hfields, -⟩
      rcases ht with ht | hnone
      · simp [Env.knowsType, Env.has, hbasic] at ht
      · cases hnone.symm.trans hfields
    | cons e rear ih =>
      obtain ⟨n, m⟩ := e
      intro front hfront k t hk ht
      obtain ⟨k, rfl⟩ : ∃ m, k = m + 1 := ⟨k - 1, by omega⟩
      rw [List.length_cons] at hk
      have hfront' : env = (front ++ [(n, m)]) ++ rear := by rw [hfront]; simp
      by_cases hn : t = n
      · subst hn
        refine hstep k t ?_
        rintro u ⟨-, fields, hfields, f, hf, hu⟩
        -- The types of the fields are known behind the record type.
        have hrear : Env.fields? ((t, m) :: rear) t = some fields :=
          fields?_rear (hfront ▸ henv) (by simp [Env.has]) (hfront ▸ hfields)
        obtain rfl : m = .recordType fields := by
          rw [Env.fields?_eq_some, List.lookup_cons_self] at hrear
          exact Option.some.inj hrear
        have hregular : Env.Regular ((t, .recordType fields) :: rear) := of_append (hfront ▸ henv)
        cases hregular with
        | cons hm _ => exact ih _ hfront' (by omega) (.inl (hm.2.2 f hf u hu))
      · refine ih _ hfront' (by omega) (ht.imp_left fun ht => ?_)
        rwa [Env.knowsType, Env.has, List.lookup_cons, beq_eq_false_iff_ne.2 hn] at ht
  refine hrear env [] rfl hk ?_
  cases hlookup : env.lookup t with
  | none => exact .inr (by simp [Env.fields?, hlookup])
  | some m => exact .inl (by simp [Env.knowsType, Env.has, hlookup])

end Env.Regular

/-! ### The number of names -/

theorem Env.Fits.length_le {scopes : Scopes} {env : Env} {k : Nat} (h : env.Fits scopes k) :
    env.length ≤ ((scopes.all.toList.take (k + 1)).map (·.symbols.length)).sum := by
  have hown : ∀ {own : Env} {k : Nat}, k < scopes.all.size →
      List.Forall₂ Matches own (scopes.symbolsOf k).reverse →
      ((scopes.all.toList.take (k + 1)).map (·.symbols.length)).sum =
        ((scopes.all.toList.take k).map (·.symbols.length)).sum + own.length := by
    intro own k hk hown
    have hlength := hown.length_eq
    rw [List.length_reverse, Scopes.symbolsOf] at hlength
    simp [hk, hlength]
  induction h with
  | root hsize _ _ hsymbols => rw [hown hsize hsymbols]; omega
  | @inside own env k home hsize _ hhome _ hsymbols _ ih =>
    rw [hown hsize hsymbols, List.length_append]
    have hprefix : ((scopes.all.toList.take (home + 1)).map (·.symbols.length)).Sublist
        ((scopes.all.toList.take k).map (·.symbols.length)) :=
      (List.take_sublist_take_left hhome).map _
    have := hprefix.sum_le_sum (fun _ _ => Nat.zero_le _)
    omega

theorem Env.Fits.length_le_symbolCount {a : Analysis} {env : Env} {k : Nat}
    (h : env.Fits a.scopes k) : env.length ≤ a.symbolCount := by
  have hcount : a.symbolCount = (a.scopes.all.toList.map (·.symbols.length)).sum := by
    rw [Analysis.symbolCount, ← Array.foldl_toList, List.sum_eq_foldl, List.foldl_map]
  have hsub : ((a.scopes.all.toList.take (k + 1)).map (·.symbols.length)).Sublist
      (a.scopes.all.toList.map (·.symbols.length)) := (List.take_sublist _ _).map _
  rw [hcount]
  exact Nat.le_trans h.length_le (hsub.sum_le_sum fun _ _ => Nat.zero_le _)

/-! ### Default values -/

section Defaults

variable {env : Env} {a : Analysis}

variable {fields : List (String × TypeExpr)} {entries : List (String × Tree)} {t record : Tree}
  {type : DeclaredType} {value : Option ConstValue}

theorem areNested_iff {levels : Nat} {values : List Tree} :
    areNested env fields levels values = true ↔
      ∀ value ∈ values, value.isNested env fields levels = true := by
  induction values with
  | nil => exact ⟨fun _ => nofun, fun _ => rfl⟩
  | cons value rest ih => rw [areNested, Bool.and_eq_true, ih, List.forall_mem_cons]

theorem entriesFit_iff :
    entriesFit env fields entries = true ↔ ∀ e ∈ entries,
      fieldFits env fields e.1 (fun inner levels => e.2.isNested env inner levels) = true := by
  induction entries with
  | nil => exact ⟨fun _ => List.forall_mem_nil _, fun _ => rfl⟩
  | cons e rest ih => rw [entriesFit, Bool.and_eq_true, ih, List.forall_mem_cons]

/-- Nested lists of values that fit the type of the elements fit the array. -/
theorem filled_settles {element : Check Tree} {t : String}
    (h : element.Settles a fun v => env.fits t 0 v = true) (ds : List (Nat × Nat)) :
    (filled element (ds.map dimensionTree)).Settles a fun v => env.fits t ds.length v = true := by
  induction ds with
  | nil => exact h
  | cons d ds ih =>
    refine .step_bind rfl (.ite (fun _ => .pure ?_) fun _ => ih.bind fun v hv => .pure ?_)
    · exact Env.fits_iff.2 fun _ _ => rfl
    · rw [Env.fits_iff] at hv ⊢
      intro fields hfields
      refine areNested_iff.2 fun value hvalue => ?_
      rw [List.eq_of_mem_replicate hvalue]
      exact hv fields hfields

/-- The fields of a record have values that fit their types if other types have such values. -/
theorem defaultFields_settles {value : Tree → Check Tree} {n : String}
    (hrecord : record.entry "name" = .ok (.text n)) (hnodup : (fields.map Prod.fst).Nodup)
    (hvalue : ∀ f ∈ fields, ∀ t ∈ f.2.base?,
      (value (.text t)).Settles a fun v => env.fits t 0 v = true) {kept : List (String × TypeExpr)}
    {infos : List Tree} (hinfos : List.Forall₂ FieldDescribes kept infos)
    (hkept : ∀ f ∈ kept, f ∈ fields) (hentries : entriesFit env fields entries = true) :
    (defaultFields value record infos entries).Settles a fun entries =>
      entriesFit env fields entries = true := by
  induction hinfos generalizing entries with
  | nil => exact .pure hentries
  | @cons field info kept infos hfield _ ih =>
    rw [List.forall_mem_cons] at hkept
    -- A value that fits the type of the field is set, and the others stay as they are.
    have hset : ∀ v, (∀ type, field.2 = .array type →
        env.fits type.element type.dimensions.length v = true) →
        (defaultFields value record infos (Tree.setEntry field.1 v entries)).Settles a
          fun entries => entriesFit env fields entries = true := by
      intro v hv
      refine ih hkept.2 (entriesFit_iff.2 fun e he => ?_)
      rcases mem_setEntry he with rfl | he
      · refine fieldFits_iff.2 fun type htype => Env.fits_iff.1 (hv type ?_)
        exact congrArg Prod.snd (List.inj_on_of_nodup_map hnodup hkept.1 htype rfl)
      · exact entriesFit_iff.1 hentries e he
    have hfieldValue := hvalue field hkept.1
    cases hfield with
    | named name type =>
      refine .step_bind rfl (.step_bind rfl (.ite (fun _ => .step_bind rfl ?_) fun _ => ?_))
      · exact .step_bind rfl (.step_bind hrecord (.step_bind rfl .refuse_bind))
      · exact (hfieldValue type rfl).bind fun v _ => .step_bind rfl (hset v nofun)
    | @array name type info hinfo =>
      refine .step_bind rfl (.step_bind rfl (.step_bind rfl ?_))
      cases hinfo with
      | mk size values =>
        refine .step_bind rfl (.step_bind rfl (.step_bind rfl ?_))
        refine (filled_settles (hfieldValue type.element rfl) type.dimensions).bind fun v hv =>
          .step_bind rfl (hset v ?_)
        rintro _ ⟨⟩
        exact hv

/-- A record has a value that fits its type if the types of its fields have such values. -/
theorem defaultRecordWith_settles {value : Tree → Check Tree} {n : String}
    (hrecord : (Meaning.recordType fields).Describes n record)
    (hnodup : (fields.map Prod.fst).Nodup) (hvalue : ∀ f ∈ fields, ∀ t ∈ f.2.base?,
      (value (.text t)).Settles a fun v => env.fits t 0 v = true) :
    (defaultRecordWith value record).Settles a fun v => v.isNested env fields 0 = true := by
  have hfields : (fieldInfos record).Settles a fun infos =>
      List.Forall₂ FieldDescribes (keptFields fields) infos := by
    refine (fieldInfos_settles hrecord).mono ?_
    rintro infos ⟨_, ⟨⟩, hinfos⟩
    exact hinfos
  have hname : record.entry "name" = .ok (.text n) ∧ record.get "type" = .ok (.text "record") := by
    cases hrecord
    exact ⟨rfl, rfl⟩
  have hempty : entriesFit env fields [] = true := rfl
  refine .step_bind hname.2 (hfields.bind fun infos hinfos => ?_)
  refine (defaultFields_settles hname.1 hnodup hvalue hinfos ?_ hempty).bind fun _ h => .pure h
  exact fun f hf => List.mem_of_mem_filter hf

/-- A type has a value if it is basic or, being a record type, leads to one. -/
theorem defaultWithin_succ_settles (h : Ready env a) {fuel : Nat} {t : String}
    (hrecord : BasicType.ofName? t = none → ∀ fields record, env.fields? t = some fields →
      (Meaning.recordType fields).Describes t record →
      (defaultRecordWith (fun inner => defaultWithin fuel inner .null) record).Settles a fun v =>
        v.isNested env fields 0 = true) :
    (defaultWithin (fuel + 1) (.text t) .null).Settles a fun v => env.fits t 0 v = true := by
  refine .step_bind rfl ?_
  split
  next basic _ =>
    refine .pure (Env.fits_iff.2 fun _ _ => ?_)
    cases basic <;> rfl
  next hbasic =>
    refine .ite (fun _ => .refuse_bind) fun _ => ?_
    refine h.fits.lookup_bind t (fun _ => .step_bind rfl (.step_bind rfl .refuse)) ?_
    intro m record hm hdescribes
    refine .step_bind hdescribes.isRecordEntry ?_
    cases m with
    | recordType fields =>
      have hfields := Env.fields?_eq_some.2 hm
      refine (hrecord hbasic fields record hfields hdescribes).mono fun v hv => ?_
      refine Env.fits_iff.2 fun fields' hfields' => ?_
      rwa [← Option.some.inj (hfields.symm.trans hfields')]
    | _ => exact .step_bind rfl .refuse

theorem defaultValue_settles (h : Ready env a) (henv : env.Regular) (t : String) :
    (defaultValue (.text t) .null).Settles a fun v => env.fits t 0 v = true := by
  have hcount := h.fits.length_le_symbolCount
  have hfuel : env.length < a.symbolCount + 2 := by omega
  refine .read_bind (henv.induction (P := fun fuel t =>
    (defaultWithin fuel (.text t) .null).Settles a fun v => env.fits t 0 v = true) ?_ hfuel t)
  intro fuel t ih
  refine defaultWithin_succ_settles h fun hbasic fields record hfields hrecord => ?_
  exact defaultRecordWith_settles hrecord (henv.nodup hfields) fun f hf u hu =>
    ih u ⟨hbasic, fields, hfields, f, hf, hu⟩

/-! ### Types and values of constants and variables -/

/-- The type of a variable, an array type with no values or with values that fit it. -/
inductive DeclaredType.KeptAs (env : Env) : DeclaredType → Tree → Prop
  | named (n : String) : KeptAs env (.named n) (.text n)
  | array (type : ArrayType) {values : Tree}
      (h : values.isNull = false →
        env.fits type.element type.dimensions.length values = true) :
    KeptAs env (.array type)
      (.arrayType (.list (type.dimensions.map dimensionTree)) (.text type.element) values)

theorem DeclaredType.KeptAs.storedAs (h : type.KeptAs env t) : type.StoredAs t := by
  cases h with
  | named n => exact .named n
  | array type _ => exact .array type _

theorem ArrayType.fits_of_isRegular {type : ArrayType} (h : type.isRegular env = true) :
    (Tree.ofOption (type.initial.map fun values => .list (constTrees values))).isNull = false →
      env.fits type.element type.dimensions.length
        (Tree.ofOption (type.initial.map fun values => .list (constTrees values))) = true := by
  rw [ArrayType.isRegular] at h
  cases hinitial : type.initial with
  | none => exact nofun
  | some values =>
    rw [hinitial] at h
    exact fun _ => h

/-- A type as it is declared fits if its initial values do. -/
theorem DeclaredType.keptAs (h : type.isRegular env value = true) :
    type.KeptAs env type.toTree := by
  cases type with
  | named n => exact .named n
  | array type => exact .array type (ArrayType.fits_of_isRegular h)

theorem filledType_settles (h : Ready env a) (henv : env.Regular) (ht : type.KeptAs env t) :
    (filledType t).Settles a (type.KeptAs env) := by
  cases ht with
  | named n => exact .pure (.named n)
  | @array type values hvalues =>
    cases values with
    | null =>
      have hdefault : (defaultArray (.list (type.dimensions.map dimensionTree))
          (.text type.element)).Settles a fun values =>
            env.fits type.element type.dimensions.length values = true :=
        .step_bind rfl (filled_settles (defaultValue_settles h henv type.element) type.dimensions)
      exact hdefault.bind fun values hvalues => .pure (.array type fun _ => hvalues)
    | _ => exact .pure (.array type hvalues)

/-- A record that is given for a name can be checked if it fits the type of that name. -/
theorem checkRecord_settles_of_fits (h : Ready env a) {type : String} {m : Meaning} {record : Tree}
    (hm : env.lookup type = some m) (hrecord : m.Describes type record)
    {fs : List (String × ConstValue)}
    (hfits : env.fits type 0 (ConstValue.record fs).toTree = true) :
    (checkRecord record (.list (fieldTrees fs))).Settles a fun _ => True := by
  refine checkRecord_settles h hrecord _ ?_
  rintro fields rfl
  exact Env.fits_iff.1 hfits fields (Env.fields?_eq_some.2 hm)

/-- The value of a variable can be checked against its type. -/
theorem variableInfo_settles (h : Ready env a) (henv : env.Regular) (ht : type.KeptAs env t)
    {initial : Option ConstValue} (hinitial : type.isRegular env initial = true) :
    (variableInfo t (Tree.ofOption (initial.map ConstValue.toTree))).Settles a fun _ => True := by
  cases ht with
  | @array type values hvalues =>
    refine .step_bind rfl ((filledType_settles h henv (.array type hvalues)).bind fun t ht => ?_)
    cases ht with
    | array _ hvalues => exact arrayInfo_settles h .storage type hvalues
  | named n =>
    refine .step_bind rfl ?_
    split
    · refine .ite (fun _ => .pure trivial) fun _ => ?_
      exact .ite (fun _ => .pure trivial) fun _ => .refuse
    · refine (filledType_settles h henv (.named n)).bind ?_
      rintro _ ⟨⟩
      refine h.fits.lookup_bind n (fun _ => .step_bind rfl (.step_bind rfl .refuse)) ?_
      intro m record hm hrecord
      refine .step_bind hrecord.isRecordEntry (.ite (fun hisRecord => ?_) fun _ => ?_)
      · cases m with
        | recordType fields =>
          cases initial with
          | none =>
            have hnodup := henv.nodup (Env.fields?_eq_some.2 hm)
            refine (defaultRecordWith_settles hrecord hnodup fun _ _ type _ =>
              defaultValue_settles h henv type).bind fun _ _ => .pure trivial
          | some value =>
            cases value with
            | record fs =>
              refine (checkRecord_settles_of_fits h hm hrecord hinitial).bind fun _ _ => ?_
              exact .step_bind rfl (.pure trivial)
            | _ => exact .step_bind rfl .refuse_bind
        | _ => exact absurd hisRecord nofun
      · exact .step_bind rfl .refuse

/-- The value of a constant can be checked against its type. -/
theorem constantInfo_settles (h : Ready env a) (hvalue : type.isRegular env value = true) :
    (constantInfo (.tuple [type.toTree, Tree.ofOption (value.map ConstValue.toTree)])).Settles a
      fun _ => True := by
  refine .step_bind rfl (.step_bind rfl ?_)
  cases type with
  | array type =>
    exact .step_bind rfl (arrayInfo_settles h .constant type (ArrayType.fits_of_isRegular hvalue))
  | named n =>
    refine .step_bind rfl ?_
    split
    · refine .ite (fun _ => .refuse_bind) fun _ => ?_
      split
      · split
        · exact .pure trivial
        · exact .refuse
      · exact .pure trivial
    · refine h.fits.lookup_bind n (fun _ => .pure trivial) fun m record hm hrecord => ?_
      refine .ite (fun _ => ?_) fun _ => .pure trivial
      cases value with
      | none => exact .step_bind rfl .refuse
      | some value =>
        cases value with
        | record fs => exact checkRecord_settles_of_fits h hm hrecord hvalue
        | _ => exact .step_bind rfl .refuse

end Defaults

/-! ### More names -/

/-- All record types that are visible in the one place are visible in the other. -/
def Env.Fewer (env' env : Env) : Prop :=
  ∀ {t : String} {fields : List (String × TypeExpr)}, env'.fields? t = some fields →
    env.fields? t = some fields

section Fewer

variable {env env' : Env}

/-- A constant or variable can only hide record types. -/
theorem Env.Fewer.value (n : String) (type : DeclaredType) :
    Env.Fewer ((n, .value type) :: env) env := by
  intro t fields hfields
  rw [Env.fields?_eq_some, List.lookup_cons] at hfields
  split at hfields
  · cases hfields
  · exact Env.fields?_eq_some.2 hfields

mutual

/-- A value stays nested as it has to be where fewer record types are visible. -/
theorem Tree.isNested_of_fewer (hsub : env'.Fewer env) {fields : List (String × TypeExpr)}
    {levels : Nat} (value : Tree) (h : value.isNested env fields levels = true) :
    value.isNested env' fields levels = true := by
  cases value with
  | list values => exact areNested_of_fewer hsub values h
  | recordInit inside =>
    cases levels with
    | zero =>
      cases inside with
      | list pairs => exact pairsFit_of_fewer hsub pairs h
      | _ => exact absurd h nofun
    | succ levels => cases inside <;> exact absurd h nofun
  | dict entries =>
    cases levels with
    | zero => exact entriesFit_of_fewer hsub entries h
    | succ levels => exact absurd h nofun
  | _ => cases levels <;> exact h
termination_by structural value

theorem areNested_of_fewer (hsub : env'.Fewer env) {fields : List (String × TypeExpr)}
    {levels : Nat} (values : List Tree) (h : areNested env fields levels values = true) :
    areNested env' fields levels values = true := by
  cases values with
  | nil => rfl
  | cons value rest =>
    rw [areNested, Bool.and_eq_true] at h ⊢
    exact ⟨Tree.isNested_of_fewer hsub value h.1, areNested_of_fewer hsub rest h.2⟩
termination_by structural values

theorem pairsFit_of_fewer (hsub : env'.Fewer env) {fields : List (String × TypeExpr)}
    (pairs : List Tree) (h : pairsFit env fields pairs = true) :
    pairsFit env' fields pairs = true := by
  cases pairs with
  | nil => rfl
  | cons pair rest =>
    cases pair with
    | tuple items =>
      rcases items with _ | ⟨first, _ | ⟨value, _ | ⟨_, _⟩⟩⟩
      · exact absurd h nofun
      · cases first <;> exact absurd h nofun
      · cases first with
        | text name =>
          rw [pairsFit, Bool.and_eq_true, fieldFits_iff] at h ⊢
          refine ⟨fun type htype inner hinner => ?_, pairsFit_of_fewer hsub rest h.2⟩
          exact Tree.isNested_of_fewer hsub value (h.1 type htype inner (hsub hinner))
        | _ => exact absurd h nofun
      · cases first <;> exact absurd h nofun
    | _ => exact absurd h nofun
termination_by structural pairs

theorem entriesFit_of_fewer (hsub : env'.Fewer env) {fields : List (String × TypeExpr)}
    (entries : List (String × Tree)) (h : entriesFit env fields entries = true) :
    entriesFit env' fields entries = true := by
  cases entries with
  | nil => rfl
  | cons entry rest =>
    obtain ⟨name, value⟩ := entry
    rw [entriesFit, Bool.and_eq_true, fieldFits_iff] at h ⊢
    refine ⟨fun type htype inner hinner => ?_, entriesFit_of_fewer hsub rest h.2⟩
    exact Tree.isNested_of_fewer hsub value (h.1 type htype inner (hsub hinner))
termination_by structural entries

end

theorem DeclaredType.KeptAs.of_fewer {type : DeclaredType} {t : Tree} (h : type.KeptAs env t)
    (hsub : env'.Fewer env) : type.KeptAs env' t := by
  cases h with
  | named n => exact .named n
  | array type h =>
    refine .array type fun hnull => ?_
    have h := h hnull
    rw [Env.fits_iff] at h ⊢
    exact fun fields hfields => Tree.isNested_of_fewer hsub _ (h fields (hsub hfields))

end Fewer

end MiniPascal
