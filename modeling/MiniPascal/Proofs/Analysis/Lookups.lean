import MiniPascal.Proofs.Analysis.Static
import MiniPascal.Proofs.Safety.Outcomes

/-!
# What Is Found for Names

Checks of names, elements and fields look names up and read the types in the entries that they
find. What they read is determined by what the names stand for. A constant of an unknown type is the
one thing that breaks them off, since its entry tells nothing.

* `elementType_settles`, `fieldType_settles`: the types of elements and fields that are found;
* `elementType_ensures`, `fieldType_ensures`: these are the static ones.
-/

namespace MiniPascal

open Check Checking Typing

/-! ### Entries -/

/-- The tree is a text or absent, as the types in entries are. -/
inductive Tree.IsWord : Tree → Prop
  | null : IsWord .null
  | text (s : String) : IsWord (.text s)

theorem Tree.IsWord.plain {t : Tree} (h : t.IsWord) : Succeeds t.plain := by
  cases h <;> exact ⟨_, rfl⟩

theorem succeeds_plain_text (s : String) : Succeeds (Tree.text s).plain := ⟨s, rfl⟩

namespace Meaning

/-- Whether the entry of a name is marked as that of a parameter. -/
def isParameter : Meaning → Bool
  | .parameter _ => true
  | .arrayParameter _ _ => true
  | .routine kind _ _ => kind == "parameter"
  | _ => false

/-- The type in what an entry tells about a value. -/
def valueType : Meaning → Tree
  | .value (.named n) => .text (if isBasic n then n else "record")
  | .value (.array _) | .arrayType _ | .arrayParameter _ _ => .text "array"
  | _ => .null

/-- The name of the record type in what an entry tells about a value, if there is one. -/
def recordName? : Meaning → Option String
  | .value (.named n) => if isBasic n then none else some n
  | _ => none

/-- The type that a name is compared by. That of a parameter is kept as it was written. -/
def type : Meaning → Tree
  | .parameter type => type.toTree
  | .arrayParameter _ _ => .null
  | m => m.valueType

/-- What can be read in the entry of a name. -/
structure Reads (m : Meaning) (entry info : Tree) : Prop where
  told : entry.info = .ok info
  parameter : entry.isParameterEntry = .ok m.isParameter
  type : m.isParameter = true → entry.get "type" = .ok m.type
  get : ∀ key, Succeeds (info.get key)
  value : info.get "type" = .ok m.valueType
  record : info.get "record_type" = .ok (m.recordName?.elim .null .text)
  element : info.get "element_type" = .ok (m.array?.elim .null fun type => .text type.element)
  array : ∀ type ∈ m.array?, type.Describes info

variable {m : Meaning} {n : String} {entry info : Tree}

theorem Describes.succeeds_get (h : m.Describes n entry) (key : String) :
    Succeeds (entry.get key) := by
  cases h <;> exact ⟨_, rfl⟩

/-- The entry of anything but a constant of an unknown type tells about its value. -/
theorem Describes.reads (h : m.Describes n entry) (hm : m ≠ .unknown) :
    ∃ info, m.Reads entry info := by
  have hnever : ¬false = true := Bool.false_ne_true
  have hnone : ∀ {info : Tree}, ∀ type ∈ (none : Option ArrayType), type.Describes info :=
    fun type h => absurd h (Option.not_mem_none type)
  cases h with
  | basic isConst name b value =>
    have hb := isBasic_name b
    refine ⟨_, rfl, rfl, (absurd · hnever), fun _ => ⟨_, rfl⟩, ?_, ?_, rfl, hnone⟩
    · rw [valueType, if_pos hb]
      rfl
    · rw [recordName?, if_pos hb]
      rfl
  | @record isConst name type hbasic fields =>
    have htype : ¬isBasic type = true := by simp [isBasic, hbasic]
    refine ⟨_, rfl, rfl, (absurd · hnever), fun _ => ⟨_, rfl⟩, ?_, ?_, rfl, hnone⟩
    · rw [valueType, if_neg htype]
      rfl
    · rw [recordName?, if_neg htype]
      rfl
  | array isConst name h | arrayType name h | arrayParameter name own h =>
    have harray := h
    cases h
    refine ⟨_, rfl, rfl, fun hp => ?_, fun _ => ⟨_, rfl⟩, rfl, rfl, rfl,
      fun _ htype => Option.mem_some.1 htype ▸ harray⟩
    first | rfl | cases hp
  | unknown name => exact absurd rfl hm
  | recordType name hfields =>
    exact ⟨_, rfl, rfl, (absurd · hnever), fun _ => ⟨_, rfl⟩, rfl, rfl, rfl, hnone⟩
  | parameter | routine =>
    exact ⟨_, rfl, rfl, fun _ => rfl, fun _ => ⟨_, rfl⟩, rfl, rfl, rfl, hnone⟩

theorem isWord_valueType (m : Meaning) : m.valueType.IsWord := by
  unfold valueType
  split <;> constructor

theorem type_of_not_isParameter (h : m.isParameter = false) : m.type = m.valueType := by
  cases m with
  | parameter | arrayParameter => cases h
  | _ => rfl

theorem succeeds_type (m : Meaning) : Succeeds m.type.plain := by
  cases m with
  | parameter type => exact type.succeeds_render
  | arrayParameter => exact ⟨_, rfl⟩
  | value declared => exact (Meaning.value declared).isWord_valueType.plain
  | _ => exact ⟨_, rfl⟩

/-- Only the types of arrays are known by the word for them. -/
theorem exists_array (h : m.valueType.isTextOf "array" = true) : ∃ type, m.array? = some type := by
  cases m with
  | value declared =>
    cases declared with
    | named n =>
      by_cases hn : isBasic n = true
      · rw [valueType, if_pos hn] at h
        obtain rfl : n = "array" := beq_iff_eq.1 h
        cases hn
      · rw [valueType, if_neg hn] at h
        cases h
    | array type => exact ⟨type, rfl⟩
  | arrayType type => exact ⟨type, rfl⟩
  | arrayParameter own known => exact ⟨known, rfl⟩
  | _ => cases h

/-- Only the types of records are known by the word for them, with their names elsewhere. -/
theorem record_cases (m : Meaning) :
    (m.type.isTextOf "record" = true ∧ ∃ n, m.recordName? = some n) ∨
      (m.type.isTextOf "record" = false ∧ m.recordName? = none) := by
  cases m with
  | value declared =>
    cases declared with
    | named n =>
      by_cases hn : isBasic n = true
      · refine .inr ⟨?_, if_pos hn⟩
        rw [type_of_not_isParameter rfl, valueType, if_pos hn]
        refine beq_eq_false_iff_ne.2 fun hrecord => ?_
        rw [hrecord] at hn
        cases hn
      · refine .inl ⟨?_, n, if_neg hn⟩
        rw [type_of_not_isParameter rfl, valueType, if_neg hn]
        rfl
    | array type => exact .inr ⟨rfl, rfl⟩
  | parameter type => cases type <;> exact .inr ⟨rfl, rfl⟩
  | _ => exact .inr ⟨rfl, rfl⟩

/-- The name of the type that a value is a record of, if it can be one. That of a parameter is its
type as it is shown, whatever it is. -/
def record? (m : Meaning) : Option String :=
  if m.isParameter then m.type.plain.toOption else m.recordName?

/-- Whether a name passes for a type: its own type is shown in that way, or it is a record of the
type. -/
def Passes (m : Meaning) (e : String) : Prop := m.type.plain = .ok e ∨ m.recordName? = some e

end Meaning

section Known

variable {a : Analysis} {env : Env} {α : Type} {Q : α → Prop} {n : String} {m : Meaning}
  {field : String × TypeExpr} {info : Tree} {f : String}

/-- A name that is looked up is visible or not. -/
theorem Env.Fits.lookup_bind (h : a.Sees env) (n : String)
    {f : Tree → Check α} (hnone : env.lookup n = none → (f .null).Settles a Q)
    (hsome : ∀ m entry, env.lookup n = some m → m.Describes n entry → (f entry).Settles a Q) :
    (Check.lookup (.text n) >>= f).Settles a Q := by
  rcases h.lookup_eq n with ⟨hn, hlookup⟩ | ⟨m, entry, hm, hlookup, hentry⟩
  · exact .ok_bind hlookup (hnone hn)
  · exact .ok_bind hlookup (hsome m entry hm hentry)

/-! ### Names -/

/-- The type of a name is compared as it is shown. The type of a record is known by a word of its
own, and its name is compared then. -/
theorem compareType_decides
    (hrecord : info.get "record_type" = .ok (m.recordName?.elim .null .text)) (e n : String) :
    Check.Decides (if (Tree.text e).isNull then pure () else do
      if (← m.type.plain) ≠ (← (Tree.text e).plain) then
        let found ← if m.type.isTextOf "record" then info.get "record_type" else pure m.type
        if !m.type.isTextOf "record" || !found.same (.text e) then
          refuse (.variableType (← found.plain) (← (Tree.text e).plain) (← (Tree.text n).plain)) :
      Check Unit) a (m.Passes e) () := by
  obtain ⟨shown, hshown⟩ := m.succeeds_type
  refine .ite (fun htrue => absurd htrue Bool.false_ne_true) fun _ => .step_bind hshown ?_
  refine .step_bind rfl (.ite (fun hne => ?_) fun heq => .pure (.inl ?_))
  · have hshown' : m.type.plain ≠ .ok e := fun h => hne (Except.ok.inj (hshown.symm.trans h))
    rcases m.record_cases with ⟨hword, given, hgiven⟩ | ⟨hword, hnone⟩
    · rw [hgiven] at hrecord
      rw [if_pos hword, hword]
      refine .step_bind hrecord (.ite (fun hnot => ?_) fun hsame => .pure (.inr ?_))
      · refine .step_bind rfl (.step_bind rfl (.step_bind rfl (.refuse ?_)))
        rintro (h | h)
        · exact hshown' h
        · simp [Option.some.inj (hgiven.symm.trans h), Tree.same] at hnot
      · have hsame : (Tree.text given).same (.text e) = true := by simpa using hsame
        rw [hgiven, Tree.same_text.1 hsame]
    · rw [if_neg (by simp [hword]), hword]
      refine .ok_bind rfl (.ite (fun _ => ?_) fun hfalse => absurd (by simp) hfalse)
      refine .step_bind hshown (.step_bind rfl (.step_bind rfl (.refuse ?_)))
      rintro (h | h)
      · exact hshown' h
      · cases hnone.symm.trans h
  · exact hshown.trans (congrArg Except.ok (not_not.1 heq))

/-- The entry of a name that is visible is read before anything is compared. -/
theorem checkVariable_of_lookup {entry info : Tree} (hlookup : lookup (.text n) a = .ok entry)
    (htruthy : entry.isTruthy = true) (hr : m.Reads entry info) {expected : Tree} {p : Prop}
    (hp : Check.Decides (if expected.isNull then pure () else do
      if (← m.type.plain) ≠ (← expected.plain) then
        let found ← if m.type.isTextOf "record" then info.get "record_type" else pure m.type
        if !m.type.isTextOf "record" || !found.same expected then
          refuse (.variableType (← found.plain) (← expected.plain) (← (Tree.text n).plain)) :
      Check Unit) a p ()) : (checkVariable expected (.text n)).Decides a p () := by
  refine .ok_bind hlookup (.ite (fun hfalse => ?_) fun _ => ?_)
  · rw [htruthy] at hfalse
    cases hfalse
  refine .step_bind hr.told (.step_bind hr.value (.step_bind hr.parameter ?_))
  cases hparameter : m.isParameter with
  | true => exact .step_bind (hr.type hparameter) hp
  | false =>
    rw [← Meaning.type_of_not_isParameter hparameter]
    exact hp

/-- A name passes if it is visible and passes for the type, if one is expected. -/
theorem checkVariable_decides (h : a.Sees env)
    (hn : env.lookup n ≠ some .unknown) {expected : Tree} (he : expected.IsWord) :
    (checkVariable expected (.text n)).Decides a
      (∃ m, env.lookup n = some m ∧ ∀ e, expected = .text e → m.Passes e) () := by
  rcases h.lookup_eq n with ⟨hm, hlookup⟩ | ⟨m, entry, hm, hlookup, hentry⟩
  · refine .ok_bind hlookup (.ite (fun _ => ?_) fun hfalse => absurd rfl hfalse)
    refine .step_bind rfl (.refuse_bind ?_)
    rintro ⟨m, hsome, -⟩
    cases hm.symm.trans hsome
  obtain ⟨info, hr⟩ := hentry.reads fun hunknown => hn (hunknown ▸ hm)
  cases he with
  | null =>
    exact checkVariable_of_lookup hlookup hentry.isTruthy hr
      (.ite (fun _ => .pure ⟨m, hm, fun _ h => by cases h⟩) fun hfalse => absurd rfl hfalse)
  | text e =>
    refine (checkVariable_of_lookup hlookup hentry.isTruthy hr
      (compareType_decides hr.record e n)).congr ⟨fun hp => ⟨m, hm, ?_⟩, ?_⟩
    · rintro _ ⟨⟩
      exact hp
    · rintro ⟨m', hm', hp⟩
      obtain rfl := Option.some.inj (hm.symm.trans hm')
      exact hp e rfl

/-- The type that is given for a name where it is asked for: the one in its entry, or that of a
parameter as it is shown. -/
inductive Meaning.Gives (m : Meaning) : Tree → Prop
  | shown (hparameter : m.isParameter = true) {s : String} (hs : m.type.plain = .ok s) :
    Gives m (.text s)
  | value (hparameter : m.isParameter = false) : Gives m m.valueType

theorem Meaning.Gives.isWord {t : Tree} (h : m.Gives t) : t.IsWord := by
  cases h with
  | shown => exact .text _
  | value => exact m.isWord_valueType

theorem factorType_settles (h : a.Sees env) (hm : env.lookup n = some m) (hunknown : m ≠ .unknown) :
    (factorType false .null (.text n)).Settles a fun t => t = .null ∨ m.Gives t := by
  refine .ite (fun _ => ?_) fun _ => .ite (fun _ => .pure (.inl rfl)) fun hnot => absurd rfl hnot
  rcases h.lookup_eq n with ⟨hnone, -⟩ | ⟨m', entry, hm', hlookup, hentry⟩
  · cases hnone.symm.trans hm
  obtain rfl := Option.some.inj (hm.symm.trans hm')
  obtain ⟨info, hr⟩ := hentry.reads hunknown
  refine .ok_bind hlookup (.step_bind hr.parameter (.ite (fun hparameter => ?_) fun hnot => ?_))
  · obtain ⟨s, hs⟩ := m.succeeds_type
    exact .step_bind (hr.type hparameter) (.step_bind hs (.pure (.inr (.shown hparameter hs))))
  · refine .ite (fun _ => .step_bind hr.told (.step hr.value (.inr ?_))) fun _ => .pure (.inl rfl)
    exact .value (by simpa using hnot)

/-! ### Elements of arrays -/

variable {d base : Designator}

theorem flatAccess_settles (d : Designator) :
    (flatAccess d.toTree).Settles a fun flat => d.root? = some flat.1 := by
  unfold flatAccess
  split
  next n hbase => exact .pure (Designator.root?_of_arrayBase hbase)
  next => exact .refuse

/-- A designator does not start at a constant of an unknown type. -/
def Designator.StartsKnown (env : Env) : Designator → Prop
  | .name n => env.lookup n ≠ some .unknown
  | .element base _ | .field base _ => base.StartsKnown env
  | .call _ _ => True

theorem Designator.StartsKnown.root : ∀ {d : Designator}, d.StartsKnown env → d.root? = some n →
    env.lookup n ≠ some .unknown
  | .name _, h, hn => Option.some.inj hn ▸ h
  | .element base _, h, hn => Designator.StartsKnown.root (d := base) h hn
  | .field _ _, _, hn | .call _ _, _, hn => by cases hn

/-- The type of the array that accesses start at. -/
def Designator.array? (env : Env) (d : Designator) : Option ArrayType := d.root?.bind env.array?

section

variable (h : a.Sees env) (hd : d.StartsKnown env)

include h hd

theorem arrayOf_settles :
    (arrayOf d.toTree).Settles a fun found =>
      ∃ type, d.array? env = some type ∧ type.Describes found.2 := by
  refine (flatAccess_settles d).bind fun flat hflat => ?_
  refine h.lookup_bind flat.1 (fun _ => .refuse_bind) fun m entry hm hentry => ?_
  refine .ite (fun _ => .refuse_bind) fun _ => ?_
  obtain ⟨info, hr⟩ := hentry.reads fun hunknown => hd.root hflat (hunknown ▸ hm)
  refine .step_bind hr.told (.step_bind hr.value (.ite (fun _ => .refuse_bind) fun hnot => ?_))
  obtain ⟨type, htype⟩ := Meaning.exists_array (m := m) (by simpa using hnot)
  refine .pure ⟨type, ?_, hr.array type htype⟩
  rw [Designator.array?, hflat, Option.bind_some, Env.array?, hm, Option.bind_some, htype]

theorem elementType_settles :
    (elementType d.toTree).Settles a fun t =>
      ∃ type, d.array? env = some type ∧ t = .text type.element := by
  refine (arrayOf_settles h hd).bind ?_
  rintro ⟨name, info⟩ ⟨type, htype, hdescribes⟩
  cases hdescribes
  exact .step rfl ⟨type, htype, rfl⟩

theorem accessDimensions_settles :
    (accessDimensions d.toTree).Settles a fun dims =>
      ∃ type, d.array? env = some type ∧ dims = type.dimensions.map dimensionTree := by
  refine (flatAccess_settles d).bind fun flat _ => (arrayOf_settles h hd).bind ?_
  rintro ⟨name, info⟩ ⟨type, htype, hdescribes⟩
  cases hdescribes
  refine .step_bind rfl (.step_bind rfl (.ite (fun _ => .refuse_bind) fun _ => .pure ?_))
  exact ⟨type, htype, rfl⟩

end

/-! ### Fields -/

theorem FieldDescribes.static (h : FieldDescribes field info) :
    ∃ τ, field.2.static? = some τ ∧ info.entry "field_type" = .ok (.text τ.word) := by
  cases h with
  | named name type | array name h => exact ⟨_, rfl, rfl⟩

theorem FieldDescribes.name (h : FieldDescribes field info) :
    info.entry "field_name" = .ok (.text field.1) := by
  cases h <;> rfl

/-- The tree is the name of the type of a field. -/
def Env.IsField (env : Env) (type f : String) (t : Tree) : Prop :=
  ∃ τ, env.field? type f = some τ ∧ t = .text τ.word

/-- The first entry for a field tells its type. -/
theorem search_settles {fields : List (String × TypeExpr)} {infos : List Tree}
    (h : List.Forall₂ FieldDescribes fields infos) (f : String) :
    (findField.search (.text f) infos).Settles a fun found => ∀ info ∈ found, ∃ τ,
      (fields.lookup f).bind TypeExpr.static? = some τ ∧
        info.entry "field_type" = .ok (.text τ.word) := by
  induction h with
  | nil => exact .pure (by simp)
  | @cons field info fields infos hfield _ ih =>
    obtain ⟨name, type⟩ := field
    refine .step_bind hfield.name (.ite (fun hsame => .pure ?_) fun hsame => ?_)
    · obtain rfl := Tree.same_text.1 hsame
      obtain ⟨τ, hτ, hentry⟩ := hfield.static
      intro info' hinfo'
      obtain rfl := Option.mem_some.1 hinfo'
      exact ⟨τ, by rw [List.lookup_cons_self, Option.bind_some, hτ], hentry⟩
    · have hne : f ≠ name := fun heq => hsame (Tree.same_text.2 heq.symm)
      rw [List.lookup_cons, beq_eq_false_iff_ne.2 hne]
      exact ih

/-- A type is looked up, and its entry is that of a record type or not. What is found for a field in
one is the type of the field. -/
theorem Env.Fits.record_bind (h : a.Sees env) (type : String)
    {f : Tree → Bool → Check α} (hother : ∀ entry, (f entry false).Settles a Q)
    (hrecord : ∀ entry, (∀ field, (findField entry (.text field)).Settles a fun found =>
      ∀ info ∈ found, ∃ t, info.entry "field_type" = .ok t ∧ env.IsField type field t) →
      (f entry true).Settles a Q) :
    Settles (do
      let record ← Check.lookup (.text type)
      let isRecord ← record.isRecordEntry
      f record isRecord) a Q := by
  refine h.lookup_bind type (fun _ => .step_bind rfl (hother _)) fun m entry hm hentry => ?_
  refine .step_bind hentry.isRecordEntry ?_
  cases hentry with
  | recordType name hfields =>
    refine hrecord _ fun field => .step_bind rfl (.step_bind rfl ?_)
    refine (search_settles hfields field).mono fun found hfound info hinfo => ?_
    obtain ⟨τ, hτ, hentry⟩ := hfound info hinfo
    exact ⟨_, hentry, τ, by rw [Env.field?, hm]; exact hτ, rfl⟩
  | _ => exact hother _

theorem fieldTypeIn_settles (h : a.Sees env) (type f : String) :
    (fieldTypeIn (.text type) (.text f)).Settles a fun t => t = .null ∨ env.IsField type f t := by
  refine h.record_bind type (fun _ => .pure (.inl rfl)) fun entry hentry => ?_
  refine (hentry f).bind fun found hfound => ?_
  cases found with
  | none => exact .pure (.inl rfl)
  | some info =>
    obtain ⟨t, ht, hfield⟩ := hfound info rfl
    exact .step ht (.inr hfield)

theorem requireField_settles {record : Tree} {missing : Check Tree} {type : String}
    (hrecord : ∀ f, (findField record (.text f)).Settles a fun found => ∀ info ∈ found,
      ∃ t, info.entry "field_type" = .ok t ∧ env.IsField type f t)
    (hmissing : missing.Settles a fun _ => False) :
    (requireField record (.text f) missing).Settles a (env.IsField type f) := by
  refine (hrecord f).bind fun found hfound => ?_
  cases found with
  | none => exact hmissing.mono fun _ hfalse => absurd hfalse id
  | some info =>
    obtain ⟨t, ht, hfield⟩ := hfound info rfl
    exact .step ht hfield

theorem recordTypeOf_settles {entry : Tree} (hr : m.Reads entry info) :
    (recordTypeOf entry).Settles a fun t => t = m.record?.elim .null .text := by
  refine .step_bind hr.told (.step_bind hr.record (.step_bind hr.parameter ?_))
  unfold Meaning.record?
  refine .ite (fun hparameter => ?_) fun hparameter => .pure ?_
  · obtain ⟨shown, hshown⟩ := m.succeeds_type
    refine .step_bind (hr.type hparameter) (.step_bind hshown (.pure ?_))
    rw [if_pos hparameter, hshown]
    rfl
  · rw [if_neg hparameter]

/-- The name of the record type in which the fields of a place are looked for. -/
def Designator.record? (env : Env) : Designator → Option String
  | .name n => (env.lookup n).bind Meaning.record?
  | .element base _ => (base.array? env).map ArrayType.element
  | .field base f => ((base.record? env).bind (env.field? · f)).map StaticType.word
  | .call _ _ => none

/-- The tree is the name of the type of a field of a place. -/
def Designator.IsField (env : Env) (d : Designator) (f : String) (t : Tree) : Prop :=
  ∃ type, d.record? env = some type ∧ env.IsField type f t

theorem Designator.IsField.record? {s : String} (h : d.IsField env f (.text s)) :
    (Designator.field d f).record? env = some s := by
  obtain ⟨type, htype, τ, hτ, hs⟩ := h
  rw [Designator.record?, htype, Option.bind_some, hτ, Tree.text.inj hs]
  rfl

/-- The types of fields that are asked for. -/
theorem fieldType_settles (h : a.Sees env) : ∀ (f : String)
    {d : Designator}, d.StartsKnown env →
      (fieldType (.text f) d.toTree).Settles a fun t => t = .null ∨ d.IsField env f t
  | f, .name n, hd => by
    refine h.lookup_bind n (fun _ => .pure (.inl rfl)) fun m entry hm hentry => ?_
    refine .ite (fun _ => .pure (.inl rfl)) fun _ => ?_
    obtain ⟨info, hr⟩ := hentry.reads fun hunknown => hd (hunknown ▸ hm)
    refine (recordTypeOf_settles hr).bind fun t ht => .ite (fun htruthy => ?_) fun _ => ?_
    · cases hrecord : m.record? with
      | none =>
        rw [ht, hrecord] at htruthy
        cases htruthy
      | some type =>
        rw [ht, hrecord]
        refine (fieldTypeIn_settles h type f).mono fun t ht => ht.imp_right fun ht => ?_
        exact ⟨type, by rw [Designator.record?, hm, Option.bind_some, hrecord], ht⟩
    · exact .pure (.inl rfl)
  | f, .element base index, hd => by
    refine (flatAccess_settles (.element base index)).bind fun flat hflat => ?_
    refine h.lookup_bind flat.1 (fun _ => .pure (.inl rfl)) fun m entry hm hentry => ?_
    refine .ite (fun _ => .pure (.inl rfl)) fun _ => ?_
    obtain ⟨info, hr⟩ := hentry.reads fun hunknown =>
      Designator.StartsKnown.root (d := .element base index) hd hflat (hunknown ▸ hm)
    refine .step_bind hr.told (.step_bind hr.value (.ite (fun hword => ?_) fun _ => ?_))
    · obtain ⟨type, htype⟩ := Meaning.exists_array hword
      have helement := hr.element
      rw [htype] at helement
      refine .step_bind helement ((fieldTypeIn_settles h type.element f).mono fun t ht =>
        ht.imp_right fun ht => ⟨type.element, ?_, ht⟩)
      have hbase : base.root? = some flat.1 := hflat
      rw [Designator.record?, Designator.array?, hbase, Option.bind_some, Env.array?, hm,
        Option.bind_some, htype]
      rfl
    · exact .pure (.inl rfl)
  | f, .field base inner, hd => by
    refine (fieldType_settles h inner (d := base) hd).bind fun t ht => ?_
    refine .ite (fun htruthy => ?_) fun _ => .pure (.inl rfl)
    rcases ht with rfl | ht
    · cases htruthy
    · obtain ⟨type, htype, τ, hτ, rfl⟩ := id ht
      exact (fieldTypeIn_settles h τ.word f).mono fun t' ht' =>
        ht'.imp_right fun ht' => ⟨τ.word, ht.record?, ht'⟩
  | _, .call _ _, _ => .pure (.inl rfl)

theorem variableField_settles (h : a.Sees env) (hn : env.lookup n ≠ some .unknown) (f : String) :
    (variableField n (.text f)).Settles a ((Designator.name n).IsField env f) := by
  refine h.lookup_bind n (fun _ => .refuse_bind) fun m entry hm hentry => ?_
  refine .ite (fun _ => .refuse_bind) fun _ => ?_
  obtain ⟨info, hr⟩ := hentry.reads fun hunknown => hn (hunknown ▸ hm)
  refine (recordTypeOf_settles hr).bind fun t ht => .ite (fun _ => .refuse_bind) fun htruthy => ?_
  cases hrecord : m.record? with
  | none =>
    rw [ht, hrecord] at htruthy
    exact absurd rfl htruthy
  | some type =>
    rw [ht, hrecord]
    refine h.record_bind type (fun _ => .step_bind rfl .refuse_bind) fun entry hentry => ?_
    refine (requireField_settles hentry (.step_bind rfl (.step_bind rfl .refuse))).mono ?_
    exact fun t ht => ⟨type, by rw [Designator.record?, hm, Option.bind_some, hrecord], ht⟩

theorem elementField_settles (h : a.Sees env) {index : Expr}
    (hd : base.StartsKnown env) (f : String) :
    (elementField (Designator.element base index).toTree (.text f)).Settles a
      ((Designator.element base index).IsField env f) := by
  refine (arrayOf_settles (d := .element base index) h hd).bind ?_
  rintro ⟨name, info⟩ ⟨type, htype, hdescribes⟩
  cases hdescribes
  refine .step_bind rfl (.ite (fun _ => .refuse_bind) fun _ => ?_)
  refine h.record_bind type.element (fun _ => .refuse_bind) fun entry hentry => ?_
  refine (requireField_settles hentry (.step_bind rfl (.step_bind rfl .refuse))).mono ?_
  exact fun t ht => ⟨type.element, congrArg (Option.map _) htype, ht⟩

theorem nestedField_settles (h : a.Sees env) (hd : base.StartsKnown env) (inner f : String) :
    (nestedField base.toTree (.text inner) (.text f)).Settles a
      ((Designator.field base inner).IsField env f) := by
  have haccess : Succeeds (Tree.fieldAccess base.toTree (.text inner)).plain :=
    (Designator.field base inner).succeeds_render
  refine (fieldType_settles h inner hd).bind fun t ht => ?_
  refine .ite (fun _ => .shown_bind haccess fun _ => .refuse_bind) fun htruthy => ?_
  rcases ht with rfl | ht
  · exact absurd rfl htruthy
  obtain ⟨type, htype, τ, hτ, rfl⟩ := id ht
  refine h.record_bind τ.word (fun _ => .shown_bind haccess fun _ => .refuse_bind) ?_
  intro entry hentry
  refine (requireField_settles hentry
    (.step_bind rfl (.shown_bind haccess fun _ => .refuse))).mono ?_
  exact fun t' ht' => ⟨τ.word, ht.record?, ht'⟩

/-! ### Static types -/

variable {e type : String} {τ : StaticType}

/-- Array types and omitted types apart, the name of a type is told by what is shown of it. Record
types are shown by a word and what is in them. -/
theorem TypeExpr.eq_named_of_plain {type : TypeExpr} (harray : ∀ array, type ≠ .array array)
    (hnone : e ≠ "None") (htype : type.static?.isSome = true ∨ ¬"record ".toList <+: e.toList)
    (hplain : type.toTree.plain = .ok e) : type = .named e := by
  cases type with
  | named n => exact congrArg _ (Except.ok.inj hplain)
  | array array => exact absurd rfl (harray array)
  | record fields =>
    obtain ⟨texts, -, hshown⟩ := Except.bind_eq_ok.1 hplain
    obtain rfl := Except.ok.inj hshown
    rcases htype with htype | htype
    · cases htype
    · rw [String.append_assoc, String.toList_append] at htype
      exact absurd (List.prefix_append _ _) htype
  | omitted => exact absurd (Except.ok.inj hplain).symm hnone

theorem Env.Fits.ne_array (h : a.Sees env) {type : TypeExpr}
    (hn : env.lookup n = some (.parameter type)) (array : ArrayType) : type ≠ .array array := by
  rcases h.lookup_eq n with ⟨hnone, -⟩ | ⟨m, entry, hm, -, hentry⟩
  · cases hnone.symm.trans hn
  · obtain rfl := Option.some.inj (hn.symm.trans hm)
    cases hentry with
    | parameter name h => exact h array

/-- A name passes for the type that it was declared with, and for no other one. -/
theorem Env.Fits.passes_iff (h : a.Sees env) (hm : env.lookup n = some m)
    (he : isMark e = false) (htype : m.static?.isSome = true ∨ isBasic e = true) :
    m.Passes e ↔ m.static? = some (.named e) := by
  have hmark : ∀ {s : String}, isMark s = true → s ≠ e := fun hs heq => by
    rw [heq, he] at hs
    cases hs
  have hother : ∀ {s : String}, isMark s = true → m.type.plain = .ok s → m.recordName? = none →
      ¬m.Passes e := by
    rintro s hs hplain hnone (hp | hp)
    · exact hmark hs (Except.ok.inj (hplain.symm.trans hp))
    · cases hnone.symm.trans hp
  have htext : ∀ s, (Tree.text s).plain = .ok s := fun _ => rfl
  have harray : ∀ type : ArrayType, ¬some type.static = some (.named e) := fun type h => by cases h
  cases m with
  | value declared =>
    cases declared with
    | named given =>
      simp only [Meaning.Passes, Meaning.type, Meaning.valueType, Meaning.recordName?,
        Meaning.static?, DeclaredType.static]
      by_cases hgiven : isBasic given = true
      · simp [hgiven, htext]
      · simp [hgiven, htext, hmark (s := "record") (by decide)]
    | array type => exact iff_of_false (hother (s := "array") (by decide) rfl rfl) (harray type)
  | parameter type =>
    constructor
    · rintro (hp | hp)
      · have hbasic : isBasic e = true → ¬"record ".toList <+: e.toList := by
          intro hbasic
          obtain ⟨b, hb⟩ := Option.isSome_iff_exists.1 hbasic
          obtain rfl := ofName?_eq_some hb
          cases b <;> decide
        have hnone : e ≠ "None" := (hmark (by decide)).symm
        rw [Meaning.static?,
          TypeExpr.eq_named_of_plain (h.ne_array hm) hnone (htype.imp id hbasic) hp]
        rfl
      · cases hp
    · intro hstatic
      cases type with
      | named given =>
        obtain rfl : given = e := by simpa [Meaning.static?, TypeExpr.static?] using hstatic
        exact .inl rfl
      | array array => exact absurd rfl (h.ne_array hm array)
      | _ => cases hstatic
  | arrayParameter own known =>
    exact iff_of_false (hother (s := "None") (by decide) rfl rfl) (harray own)
  | arrayType _ => exact iff_of_false (hother (s := "array") (by decide) rfl rfl) nofun
  | _ => exact iff_of_false (hother (s := "None") (by decide) rfl rfl) nofun

theorem Env.lookup_ne_unknown (hn : (env.static? n).isSome = true) :
    env.lookup n ≠ some .unknown := by
  intro hunknown
  rw [Env.static?, hunknown] at hn
  cases hn

theorem checkVariable_ensures (h : a.Sees env) (htype : isMark type = false)
    (hn : (env.static? n).isSome = true) :
    (checkVariable (.text type) (.text n)).Ensures a fun _ =>
      env.static? n = some (.named type) := by
  intro u hu
  obtain ⟨⟨m, hm, hpasses⟩, -⟩ :=
    (checkVariable_decides h (Env.lookup_ne_unknown hn) (.text type)).settles.1 u hu
  rw [Env.static?, hm, Option.bind_some] at hn ⊢
  exact (h.passes_iff hm htype (.inl hn)).1 (hpasses type rfl)

theorem Designator.startsKnown_of_root : ∀ {d : Designator}, d.root? = some n →
    env.lookup n ≠ some .unknown → d.StartsKnown env
  | .name _, h, hn => Option.some.inj h ▸ hn
  | .element base _, h, hn => Designator.startsKnown_of_root (d := base) h hn
  | .field _ _, h, _ | .call _ _, h, _ => by cases h

/-- A place that has a static type does not start at a constant of an unknown one. -/
theorem Designator.startsKnown_of_static : ∀ {d : Designator} {τ : StaticType},
    d.static? env = some τ → d.StartsKnown env
  | .name n, _, h => Env.lookup_ne_unknown (Option.isSome_of_eq_some h)
  | .element base _, _, h => by
    obtain ⟨n, dimensions, type, hroot, hn, -⟩ := Designator.root?_of_elementAfter? h
    exact Designator.startsKnown_of_root (d := base) hroot
      (Env.lookup_ne_unknown (Option.isSome_of_eq_some hn))
  | .field base f, _, h => by
    unfold Designator.static? at h
    split at h
    next type htype => exact Designator.startsKnown_of_static (d := base) htype
    next => cases h
  | .call _ _, _, _ => trivial

theorem Designator.array?_static {count : Nat} (hstatic : d.elementAfter? env count = some τ)
    (hfaithful : d.isFaithful env = true) {known : ArrayType} (hknown : d.array? env = some known) :
    τ = .named known.element := by
  obtain ⟨n, dimensions, element, hroot, hn, rfl⟩ := Designator.root?_of_elementAfter? hstatic
  rw [Designator.array?, hroot, Option.bind_some] at hknown
  obtain ⟨m, hm, hknown⟩ := Option.bind_eq_some_iff.1 hknown
  have htype := Meaning.array?_static hm hknown hn (Designator.isFaithful_root hroot hfaithful)
  rw [(StaticType.array.inj htype).2]

/-- Where the type of a place is a name, its fields are looked for in that type. -/
theorem Designator.record?_static : ∀ {d : Designator} {type record : String},
    d.static? env = some (.named type) → d.isFaithful env = true → d.record? env = some record →
      record = type
  | .name n, type, record, hstatic, _, hrecord => by
    obtain ⟨m, hm, hrecord⟩ := Option.bind_eq_some_iff.1 hrecord
    rw [Designator.static?, Env.static?, hm, Option.bind_some] at hstatic
    cases m with
    | value declared =>
      cases declared with
      | named given =>
        obtain rfl : given = type := StaticType.named.inj (Option.some.inj hstatic)
        have hrecord : (if isBasic given then none else some given) = some record := hrecord
        split at hrecord
        · cases hrecord
        · exact (Option.some.inj hrecord).symm
      | array _ => cases hrecord
    | parameter given =>
      cases given with
      | named given =>
        obtain rfl : given = type := StaticType.named.inj (Option.some.inj hstatic)
        exact (Option.some.inj hrecord).symm
      | _ => cases hstatic
    | _ => cases hstatic
  | .element base _, type, record, hstatic, hfaithful, hrecord => by
    obtain ⟨known, hknown, rfl⟩ := Option.map_eq_some_iff.1 hrecord
    exact (StaticType.named.inj (Designator.array?_static hstatic hfaithful hknown)).symm
  | .field base f, type, record, hstatic, hfaithful, hrecord => by
    obtain ⟨τ, hτ, rfl⟩ := Option.map_eq_some_iff.1 hrecord
    obtain ⟨outer, houter, hτ⟩ := Option.bind_eq_some_iff.1 hτ
    unfold Designator.static? at hstatic
    split at hstatic
    next type' htype' =>
      obtain rfl := Designator.record?_static (d := base) htype' hfaithful houter
      rw [Option.some.inj (hτ.symm.trans hstatic), StaticType.word]
    next => cases hstatic
  | .call _ _, _, _, _, _, hrecord => by cases hrecord

theorem elementType_ensures (h : a.Sees env) {index : Expr}
    (hstatic : (Designator.element base index).static? env = some τ)
    (hfaithful : (Designator.element base index).isFaithful env = true) :
    (elementType (Designator.element base index).toTree).Ensures a fun t => t = .text τ.word := by
  intro t ht
  obtain ⟨known, hknown, rfl⟩ :=
    (elementType_settles h (Designator.startsKnown_of_static hstatic)).1 t ht
  rw [Designator.array?_static (d := base) hstatic hfaithful hknown, StaticType.word]

theorem Designator.IsField.static {t : Tree} (h : d.IsField env f t)
    (hstatic : d.static? env = some (.named type)) (hfaithful : d.isFaithful env = true) :
    env.IsField type f t := by
  obtain ⟨record, hrecord, ht⟩ := h
  rwa [← Designator.record?_static hstatic hfaithful hrecord]

theorem fieldType_ensures (h : a.Sees env) (f : String)
    (hstatic : d.static? env = some (.named type)) (hfaithful : d.isFaithful env = true) :
    (fieldType (.text f) d.toTree).Ensures a fun t => t = .null ∨ env.IsField type f t :=
  fun t ht => ((fieldType_settles h f (Designator.startsKnown_of_static hstatic)).1 t ht).imp_right
    fun ht => ht.static hstatic hfaithful

theorem finishFieldAccess_ensures {e : String} (he : e ≠ "") {field type : Tree} :
    (finishFieldAccess (.text e) field record type).Ensures a fun _ =>
      type.same (.text e) = true := by
  have htruthy : (Tree.text e).isTruthy = true := by simpa [Tree.isTruthy] using he
  refine .ite (fun _ => ?_) fun hsame _ _ => ?_
  · exact .of_stops (by simp)
  · simpa [htruthy] using hsame

/-- A field that is compared has the expected type. -/
theorem checkFieldAccess_ensures (h : a.Sees env) (hstatic : d.static? env = some (.named type))
    (hfaithful : d.isFaithful env = true) (he : e ≠ "") (f : String) :
    (checkFieldAccess (.text e) (.text f) d.toTree).Ensures a fun _ =>
      ∃ τ, env.field? type f = some τ ∧ τ.word = e := by
  have hknown := Designator.startsKnown_of_static hstatic
  have hlast : ∀ {record t : Tree} {c : Code}, d.IsField env f t →
      finishFieldAccess (.text e) (.text f) record t a = .ok c →
      ∃ τ, env.field? type f = some τ ∧ τ.word = e := by
    intro record t c ht hc
    obtain ⟨τ, hτ, rfl⟩ := ht.static hstatic hfaithful
    exact ⟨τ, hτ, Tree.same_text.1 (finishFieldAccess_ensures he c hc)⟩
  cases d with
  | name n => exact .bind fun t ht c hc => hlast ((variableField_settles h hknown f).1 t ht) hc
  | element base index =>
    have hbase : base.StartsKnown env := hknown
    rw [checkFieldAccess_element]
    refine .bind fun _ _ => .bind fun _ _ => .bind fun _ _ => .bind fun t ht c hc => ?_
    exact hlast ((elementField_settles h hbase f).1 t ht) hc
  | field base inner =>
    have hbase : base.StartsKnown env := hknown
    exact .bind fun t ht c hc => hlast ((nestedField_settles h hbase inner f).1 t ht) hc
  | call base arguments => exact .refuse

end Known

end MiniPascal
