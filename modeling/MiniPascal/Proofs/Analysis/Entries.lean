import MiniPascal.Proofs.Analysis.Visible
import MiniPascal.Proofs.Vocabulary

/-!
# What Is Known About Names

The forms that the entries of names have. All information about names is kept as data, and what is
made of it later relies on these forms. The names in the tables, the types of elements and fields
and the values of constants are made of texts of the program, so that they belong to its vocabulary.
A type that a literal names is kept only if it is basic or if it is known, and then it is a name.

In a table in which all entries have one of these forms, every new entry has one as well.
-/

namespace MiniPascal

open Check Initial Declaring

/-! ### Forms of entries -/

section Forms

variable (V : Vocabulary)

/-- What is known about an array: it has at least one dimension. -/
inductive ArrayInfo : Tree → Prop
  | mk (first : Nat × Nat) (others : List (Nat × Nat)) {element : String} (h : V.name element)
      (size : Int) (values : Tree) :
    ArrayInfo (.dict [("type", .text "array"), ("element_type", .text element), ("size", .int size),
      ("dimensions", .list ((first :: others).map dimensionTree)), ("initial_values", values)])

/-- What is known about a constant. Its values are values of the program; a character is kept as a
number. -/
inductive ConstantInfo : Tree → Prop
  /-- Nothing, as its type is unknown. -/
  | unknown : ConstantInfo .null
  | basic (b : BasicType) {value : ConstValue} (h : value.Within V) :
    ConstantInfo (.dict [("type", .text b.name), ("value", value.toTree)])
  | array {info : Tree} (h : ArrayInfo V info) : ConstantInfo info
  | record {name : String} (hname : V.name name) {fields : List (String × Tree)}
      (h : ∀ f ∈ fields, V.name f.1 ∧ ∃ value : ConstValue, value.Within V ∧ f.2 = value.toTree) :
    ConstantInfo (.dict [("type", .text "record"), ("record_type", .text name),
      ("fields", .dict fields)])

/-- What is known about a variable. -/
inductive VariableInfo : Tree → Prop
  | basic (b : BasicType) (value : Tree) :
    VariableInfo (.dict [("type", .text b.name), ("value", value)])
  | array {info : Tree} (h : ArrayInfo V info) : VariableInfo info
  | record {name : String} (hname : V.name name) (fields : Tree) :
    VariableInfo (.dict [("type", .text "record"), ("record_type", .text name), ("fields", fields)])

/-- What is known about a field of a record type. -/
inductive FieldInfo : Tree → Prop
  | plain {name type : String} (hname : V.name name) (htype : V.name type) :
    FieldInfo (.dict [("field_name", .text name), ("field_type", .text type)])
  | array {name : String} (hname : V.name name) (described : Tree) :
    FieldInfo (.dict [("field_name", .text name), ("field_type", .text "array"),
      ("arr_info", described)])

/-- The entries of parameters. -/
inductive ParameterEntry : Tree → Prop
  | typed {type : TypeExpr} (h : type.Within V) :
    ParameterEntry (.dict [("kind", .text "parameter"), ("type", type.toTree)])
  | array {info : Tree} (h : ArrayInfo V info) :
    ParameterEntry (.dict [("kind", .text "parameter"), ("info", info)])

/-- The entries of all names but those of routines. -/
inductive PlainEntry : Tree → Prop
  | constant {info : Tree} (h : ConstantInfo V info) :
    PlainEntry (.dict [("type", .text "const"), ("info", info)])
  | var {info : Tree} (h : VariableInfo V info) :
    PlainEntry (.dict [("type", .text "var"), ("info", info)])
  | recordType {name : String} (hname : V.name name) {infos : List Tree}
      (h : ∀ info ∈ infos, FieldInfo V info) :
    PlainEntry (.dict [("name", .text name), ("type", .text "record"),
      ("fields_info", .list infos)])
  | arrayType {info : Tree} (h : ArrayInfo V info) : PlainEntry (.dict [("info", info)])
  | parameter {entry : Tree} (h : ParameterEntry V entry) : PlainEntry entry

end Forms

/-- The entries of names. -/
inductive Entry (V : Vocabulary) : Tree → Prop
  | plain {entry : Tree} (h : PlainEntry V entry) : Entry V entry
  | routine (kind : String) (result code locals : Tree) {parameters : List Parameter}
      (h : ∀ p ∈ parameters, V.name p.name) :
    Entry V (routineInfo (.text kind) result code locals (parameters.map Parameter.pair))

variable {V : Vocabulary} {entry : Tree} {a : Analysis}

theorem ArrayType.Describes.info {type : ArrayType} (helement : V.name type.element) {info : Tree}
    (h : type.Describes info) : ArrayInfo V info := by
  cases h
  exact .mk type.first type.others helement _ _

theorem Entry.exists_dict (h : Entry V entry) : ∃ entries, entry = .dict entries := by
  cases h with
  | plain h =>
    cases h with
    | parameter h => cases h <;> exact ⟨_, rfl⟩
    | _ => exact ⟨_, rfl⟩
  | routine => exact ⟨_, rfl⟩

/-! ### Tables of entries -/

/-- The names in the tables belong to the vocabulary, and their entries have one of the forms. -/
abbrev Scopes.Within (V : Vocabulary) (s : Scopes) : Prop :=
  s.Each fun n entry => V.name n ∧ Entry V entry

theorem Scopes.Within.lookupIn {s : Scopes} (h : s.Within V) {k : Nat} {n : String} {entry : Tree}
    (hlookup : s.lookupIn k n = some entry) : V.name n ∧ Entry V entry :=
  Scopes.Each.lookupIn h hlookup

/-- What a table says about a name belongs to the vocabulary, and then the name does too. -/
theorem lookup_ensures (h : a.scopes.Within V) (n : String) :
    (lookup (.text n)).Ensures a fun t => t = .null ∨ V.name n ∧ Entry V t := by
  intro t ht
  obtain rfl := Except.ok.inj ht
  cases hentry : a.scopes.lookupIn a.scopes.current n with
  | none => exact .inl rfl
  | some entry => exact .inr (h.lookupIn hentry)

/-- What has fields is a record type, whose name belongs to the vocabulary. -/
theorem exists_name_of_fieldInfos {record : Tree} (h : record = .null ∨ Entry V record)
    {infos : List Tree} (hinfos : fieldInfos record a = .ok infos) :
    ∃ name : String, V.name name ∧ record.entry "name" = .ok (.text name) := by
  obtain ⟨fields, hfields, hinfos⟩ := bind_eq_ok.1 hinfos
  have hnone : fields ≠ .null := by
    rintro rfl
    exact (Stops.bind fun _ => by simp) _ hinfos
  rcases h with rfl | ⟨⟨⟩⟩ | ⟨⟩
  case inr.plain.recordType hname _ _ _ => exact ⟨_, hname, rfl⟩
  case inr.plain.parameter h => cases h <;> exact absurd (Except.ok.inj hfields).symm hnone
  case inl => exact absurd hfields nofun
  all_goals exact absurd (Except.ok.inj hfields).symm hnone

/-! ### Records -/

theorem mem_setEntry {key : String} {value : Tree} {entry : String × Tree} :
    ∀ {entries : List (String × Tree)}, entry ∈ Tree.setEntry key value entries →
      entry = (key, value) ∨ entry ∈ entries
  | [], h => .inl (List.mem_singleton.1 h)
  | (k, v) :: rest, h => by
    rw [Tree.setEntry] at h
    split at h
    next hkey =>
      rcases List.mem_cons.1 h with rfl | h
      · exact .inl (by rw [hkey])
      · exact .inr (List.mem_cons_of_mem _ h)
    next =>
      rcases List.mem_cons.1 h with rfl | h
      · exact .inr List.mem_cons_self
      · rcases mem_setEntry h with rfl | h
        · exact .inl rfl
        · exact .inr (List.mem_cons_of_mem _ h)

/-- The checked fields of a record have names and values of the program. -/
theorem checkPairs_ensures (record : Tree) :
    ∀ {fs : List (String × ConstValue)}, fieldsWithin V fs → ∀ (infos : List Tree)
      {checked : List (String × Tree)},
      (∀ f ∈ checked, V.name f.1 ∧ ∃ value : ConstValue, value.Within V ∧ f.2 = value.toTree) →
      (checkPairs record infos checked (fieldTrees fs)).Ensures a fun fields =>
        ∀ f ∈ fields, V.name f.1 ∧ ∃ value : ConstValue, value.Within V ∧ f.2 = value.toTree
  | [], _, _, _, h | _ :: _, _, [], _, h => .pure h
  | (name, value) :: fs, ⟨hname, hvalue, hfs⟩, info :: infos, _, h => by
    refine .bind fun _ _ => .bind fun key hkey => ?_
    obtain rfl : name = key := Except.ok.inj (fault_eq_ok.1 hkey)
    refine checkPairs_ensures record hfs infos fun f hf => ?_
    rcases mem_setEntry hf with rfl | hf
    · exact ⟨hname, value, hvalue, rfl⟩
    · exact h f hf

theorem checkRecord_ensures {record : Tree} (h : record = .null ∨ Entry V record)
    {fs : List (String × ConstValue)} (hfs : fieldsWithin V fs) :
    (checkRecord record (.list (fieldTrees fs))).Ensures a (ConstantInfo V) := by
  refine .bind fun infos hinfos => .ite (fun _ => ?_) fun _ => .bind fun fields hfields => ?_
  · exact .of_stops (by simp)
  · obtain ⟨name, hname, hentry⟩ := exists_name_of_fieldInfos h hinfos
    exact .step_bind hentry
      (.pure (.record hname (checkPairs_ensures record hfs infos (by simp) fields hfields)))

/-! ### Constants and variables -/

variable {value : Option ConstValue} {type : DeclaredType}

theorem exists_value_of_admits {b : BasicType} (hvalue : ∀ v ∈ value, v.Within V)
    (h : b.admits (Tree.ofOption (value.map ConstValue.toTree)) = true) :
    ∃ v : ConstValue, v.Within V ∧ Tree.ofOption (value.map ConstValue.toTree) = v.toTree := by
  cases value with
  | none => cases b <;> exact absurd h nofun
  | some v => exact ⟨v, hvalue v rfl, rfl⟩

/-- What is known about a constant has one of the forms. -/
theorem constantInfo_ensures (h : a.scopes.Within V) (htype : type.Within V)
    (hvalue : ∀ v ∈ value, v.Within V) :
    (constantInfo (.tuple [type.toTree, Tree.ofOption (value.map ConstValue.toTree)])).Ensures a
      (ConstantInfo V) := by
  refine .step_bind rfl (.step_bind rfl ?_)
  cases type with
  | array type =>
    exact .step_bind rfl
      ((arrayInfo_describes (by decide) type _).mono fun _ h => .array (h.info htype.1))
  | named n =>
    refine .step_bind rfl ?_
    cases hn : BasicType.ofName? n with
    | some b =>
      obtain rfl := ofName?_eq_some hn
      refine .ite (fun _ => .refuse_bind) fun hadmits => ?_
      obtain ⟨v, hv, htree⟩ := exists_value_of_admits hvalue (by simpa using hadmits)
      -- A character is kept by its number, any other value of a basic type as it is given.
      split
      · split
        next c _ =>
          have hcode : (ConstValue.number c.toNat).Within V := trivial
          exact .pure (.basic _ hcode)
        next => exact .refuse
      · rw [htree]
        exact .pure (.basic _ hv)
    | none =>
      -- Any other name is looked up: a constant of an unknown type is kept without a value.
      refine .bind fun record hrecord => .ite (fun _ => ?_) fun _ => .pure .unknown
      have hentry : record = .null ∨ Entry V record :=
        (lookup_ensures h n record hrecord).imp_right And.right
      cases value with
      | none => exact .bind fun _ _ => .refuse
      | some v =>
        cases v with
        | record fs => exact checkRecord_ensures hentry (hvalue _ rfl)
        | _ => exact .bind fun _ _ => .refuse

/-- What is known about a variable has one of the forms. -/
theorem variableInfo_ensures (h : a.scopes.Within V) (htype : type.Within V) {t : Tree}
    (hstored : type.StoredAs t) (initial : Tree) :
    (variableInfo t initial).Ensures a (VariableInfo V) := by
  cases hstored with
  | named n =>
    refine .step_bind rfl ?_
    cases hn : BasicType.ofName? n with
    | some b =>
      obtain rfl := ofName?_eq_some hn
      refine .ite (fun _ => .pure (.basic b _)) fun _ => ?_
      exact .ite (fun _ => .pure (.basic b _)) fun _ => .refuse
    | none =>
      refine .bind fun filled hfilled => ?_
      obtain rfl : Tree.text n = filled := pure_eq_ok.1 hfilled
      refine .bind fun record hrecord => .bind fun isRecord hisRecord => .ite (fun htrue => ?_)
        fun _ => .of_stops (by simp)
      -- A record type is known, so that it is a name.
      have hname : V.name n := by
        rcases lookup_ensures h n record hrecord with rfl | hentry
        · obtain rfl : false = isRecord := Except.ok.inj (fault_eq_ok.1 hisRecord)
          exact absurd htrue Bool.false_ne_true
        · exact hentry.1
      split
      · exact .bind fun fields _ => .pure (.record hname fields)
      · exact .bind fun _ _ => .bind fun _ _ => .bind fun fields _ => .pure (.record hname fields)
      · exact .of_stops (by simp)
  | array type values =>
    refine .step_bind rfl (.bind fun filled hfilled => ?_)
    obtain ⟨values', rfl⟩ := filledType_arrayType_ensures a _ _ values filled hfilled
    exact (arrayInfo_describes (by decide) type values').mono fun _ h => .array (h.info htype.1)

/-! ### Fields -/

/-- What is known about a field belongs to the vocabulary: its type is basic or known. -/
theorem fieldInfo_ensures (h : a.scopes.Within V) {name : String} (hname : V.name name)
    (type : TypeExpr) :
    (fieldInfo (.text name) type.toTree).Ensures a fun info => ∀ i ∈ info, FieldInfo V i := by
  cases type with
  | named n =>
    refine .ite (fun _ => .bind fun known hknown => .ite (fun _ => ?_) fun htrue => ?_)
      fun hnone => ?_
    · exact .of_stops (by simp)
    · have htype : V.name n := by
        rcases lookup_ensures h n known hknown with rfl | hentry
        · exact absurd htrue (by decide)
        · exact hentry.1
      exact .pure (by simpa using .plain hname htype)
    · have htype : V.name n := by
        have hcases : n = "integer" ∨ n = "string" :=
          or_iff_not_imp_left.2 (by simpa [Tree.isTextOf] using hnone)
        rcases hcases with rfl | rfl
        · exact V.basic .integer
        · exact V.basic .string
      exact .pure (by simpa using .plain hname htype)
  | array type => exact .bind fun described _ => .pure (by simpa using .array hname described)
  | record fields | omitted => exact .pure (by simp)

/-- What is known about the fields of a record type belongs to the vocabulary. -/
theorem fieldInfoList_ensures (h : a.scopes.Within V) : ∀ {fs : List (String × TypeExpr)},
    membersWithin V fs →
    (fieldInfoList (memberTrees fs)).Ensures a fun infos => ∀ info ∈ infos, FieldInfo V info
  | [], _ => .pure (by simp)
  | (name, type) :: fs, ⟨hname, _, hfs⟩ => by
    refine .step_bind rfl (.bind fun info hinfo => .bind fun infos hinfos => .pure fun i hi => ?_)
    rcases List.mem_append.1 hi with hi | hi
    · exact fieldInfo_ensures h hname type info hinfo i (Option.mem_toList.1 hi)
    · exact fieldInfoList_ensures h hfs infos hinfos i hi

end MiniPascal
