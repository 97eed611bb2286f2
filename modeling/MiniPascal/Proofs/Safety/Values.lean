import MiniPascal.Proofs.Safety.Expressions

/-!
# Checks of Initial Values End by Design

Initial values that are nested like the arrays that they are for are checked without a fault.

* `checkRecord_settles`: a record that fits its type can be checked.
-/

namespace MiniPascal

open Check Initial

section Checked

variable {env : Env} {a : Analysis} {fields : List (String × TypeExpr)}
  {entries : List (String × Tree × ArrayCheck)} {record : Tree} {n : String} {infos : List Tree}

/-! ### Dimensions and fields -/

theorem succeeds_arraySize (ds : List (Nat × Nat)) :
    Succeeds (arraySize (ds.map dimensionTree)) := by
  induction ds with
  | nil => exact ⟨1, rfl⟩
  | cons d ds ih => exact (succeeds_bind_of_eq rfl).2 (ih.bind fun _ _ => succeeds_pure _)

theorem Env.fields?_eq_some :
    env.fields? n = some fields ↔ env.lookup n = some (.recordType fields) := by
  unfold Env.fields?
  split
  next h => rw [h]; simp
  next h => exact ⟨nofun, fun heq => absurd heq (h fields)⟩

theorem fieldInfos_settles {m : Meaning} (h : m.Describes n record) :
    (fieldInfos record).Settles a fun infos => ∃ fields, m = .recordType fields ∧
      List.Forall₂ FieldDescribes (keptFields fields) infos := by
  cases h with
  | recordType name hfields =>
    refine .step_bind rfl (.ite (fun _ => .step rfl ⟨_, rfl, hfields⟩) fun _ => ?_)
    exact .step_bind rfl (.step_bind rfl .refuse)
  | _ => exact .step_bind rfl (.step_bind rfl (.step_bind rfl .refuse))

theorem recordValue_settles (h : (Meaning.recordType fields).Describes n record)
    (checked : List (String × Tree)) :
    (recordValue record checked).Settles a fun _ => True := by
  cases h
  exact .step_bind rfl (.pure trivial)

/-! ### Fields with their values -/

/-- A field that is known and a value of some name can be checked against each other. -/
theorem checkField_settles {info : Tree} {name : String} {field : String × TypeExpr}
    (hrecord : record.get "name" = .ok (.text n)) (hfield : FieldDescribes field info)
    (value : Tree) {array : ArrayCheck} (harray : ∀ type, field = (name, .array type) →
      (array (.text type.element)
        (.list (type.dimensions.map dimensionTree))).Settles a fun _ => True) :
    (checkField record info (.text name) value array).Settles a fun _ => True := by
  have hmismatch : ∀ (wanted : String) {Q : Unit → Prop}, Settles (α := Unit) (do
      Check.refuse (.fieldName (← (Tree.text wanted).plain) (← (Tree.text name).plain))) a Q :=
    fun _ _ => .step_bind rfl (.step_bind rfl .refuse)
  cases hfield with
  | named wanted type =>
    refine .step_bind rfl (.step_bind rfl ?_)
    refine .ite (fun _ => (hmismatch wanted (Q := fun _ => False)).bind fun _ h => absurd h id) ?_
    refine fun _ => .step_bind rfl ?_
    split
    · exact .ite (fun _ => hmismatch wanted) fun _ => .pure trivial
    · refine .ite (fun _ => .step_bind rfl (.step_bind rfl .refuse_bind)) fun _ => ?_
      exact .step_bind rfl (.step_bind hrecord (.step_bind rfl .refuse))
  | array wanted hinfo =>
    refine .step_bind rfl (.step_bind rfl ?_)
    refine .ite (fun _ => (hmismatch wanted (Q := fun _ => False)).bind fun _ h => absurd h id) ?_
    intro hsame
    obtain rfl : wanted = name := by simpa [Tree.same_text] using hsame
    refine .step_bind rfl (.step_bind rfl ?_)
    cases hinfo with
    | mk size values => exact .step_bind rfl (.step_bind rfl (harray _ rfl))

theorem fieldNames_settles (h : List.Forall₂ FieldDescribes fields infos) :
    (infos.mapM fun info => show Check String from do (← info.entry "field_name").key).Settles a
      fun names => names = fields.map Prod.fst := by
  induction h with
  | nil => exact .pure rfl
  | @cons field info fields infos hfield _ ih =>
    rw [List.mapM_cons]
    have hname : Settles (do (← info.entry "field_name").key : Check String) a
        fun name => name = field.1 := .step_bind hfield.name (.step rfl rfl)
    exact hname.bind fun name hname => ih.bind fun names hnames => .pure (by simp [hname, hnames])

/-- The fields that are known can be checked against the entries of a dictionary that has all of
them. -/
theorem checkEntries_settles (h : Ready env a)
    (hrecord : record.get "name" = .ok (.text n))
    (hfields : List.Forall₂ FieldDescribes fields infos)
    (hentries : ∀ f ∈ fields, ∃ value array, entries.lookup f.1 = some (value, array) ∧
      ∀ type, f.2 = .array type → (array (.text type.element)
        (.list (type.dimensions.map dimensionTree))).Settles a fun _ => True) :
    ∀ checked, (checkEntries record entries infos checked).Settles a fun _ => True := by
  induction hfields with
  | nil => exact fun _ => .pure trivial
  | @cons field info fields infos hfield _ ih =>
    intro checked
    rw [List.forall_mem_cons] at hentries
    obtain ⟨⟨value, array, hlookup, harray⟩, hentries⟩ := hentries
    have hrest := ih hentries
    cases hfield with
    | named name type =>
      refine .step_bind rfl (.step_bind rfl (.step_bind rfl ?_))
      rw [hlookup]
      refine .step_bind rfl ?_
      split
      · exact .ite (fun _ => .step_bind rfl .refuse_bind) fun _ => hrest _
      · refine .ite (fun _ => .step_bind rfl .refuse_bind) fun _ => ?_
        have hunknown : Settles (do Check.refuse (.unsupportedFieldType (← (Tree.text type).plain)
            (← (← record.get "name").plain)) : Check (List (String × Tree))) a fun _ => True :=
          .step_bind rfl (.step_bind hrecord (.step_bind rfl .refuse))
        refine h.fits.lookup_bind type (fun _ => hunknown) fun m entry _ _ => ?_
        exact .ite (fun _ => .pure trivial) fun _ => hunknown
    | array name hinfo =>
      refine .step_bind rfl (.step_bind rfl (.step_bind rfl ?_))
      rw [hlookup]
      refine .step_bind rfl (.step_bind rfl ?_)
      cases hinfo with
      | mk size values =>
        exact .step_bind rfl (.step_bind rfl ((harray _ rfl).bind fun _ _ => hrest _))

/-- A dictionary can be checked against a record type if its values can be checked as array
fields. -/
theorem checkDictionary_settles (h : Ready env a) {m : Meaning}
    (hrecord : m.Describes n record)
    (hentries : ∀ fields, m = .recordType fields → ∀ e ∈ entries, ∀ type : ArrayType,
      (e.1, .array type) ∈ fields → (e.2.2 (.text type.element)
        (.list (type.dimensions.map dimensionTree))).Settles a fun _ => True) :
    (checkDictionary record entries).Settles a fun _ => True := by
  refine (fieldInfos_settles hrecord).bind ?_
  rintro infos ⟨fields, rfl, hinfos⟩
  have hname : record.get "name" = .ok (.text n) := by
    cases hrecord
    rfl
  refine (fieldNames_settles hinfos).bind ?_
  rintro _ rfl
  refine .ite (fun _ => .step_bind hname (.step_bind rfl .refuse_bind)) fun hall => ?_
  refine (checkEntries_settles h hname hinfos (fun f hf => ?_) []).bind fun checked _ =>
    recordValue_settles hrecord checked
  obtain ⟨⟨value, array⟩, hlookup⟩ : ∃ e, entries.lookup f.1 = some e := by
    refine Option.ne_none_iff_exists'.1 fun hnone => hall ?_
    simp only [Bool.or_eq_true, List.any_eq_true, List.mem_map]
    exact .inr ⟨f.1, ⟨f, hf, rfl⟩, by rw [hnone]; rfl⟩
  obtain ⟨before, after, rfl, -⟩ := List.lookup_eq_some_iff.1 hlookup
  refine ⟨value, array, hlookup, fun type htype => ?_⟩
  refine hentries fields rfl (f.1, value, array) (by simp) type ?_
  exact htype ▸ List.mem_of_mem_filter hf

/-! ### Values that are nested like their arrays -/

theorem fieldFits_iff {name : String} {isNested : List (String × TypeExpr) → Nat → Bool} :
    fieldFits env fields name isNested = true ↔ ∀ type, (name, .array type) ∈ fields →
      ∀ inner, env.fields? type.element = some inner →
        isNested inner type.dimensions.length = true := by
  unfold fieldFits
  rw [List.all_eq_true]
  constructor
  · intro h type hmem inner hinner
    have h := h _ hmem
    simpa [hinner] using h
  · rintro h ⟨n, type⟩ hmem
    cases type with
    | array type =>
      by_cases hn : n = name
      · subst hn
        cases hinner : env.fields? type.element with
        | none => simp [hinner]
        | some inner => simpa [hinner] using h type hmem inner hinner
      · simp [hn]
    | _ => rfl

/-- An array can be described if its initial values can be checked and, for an array of records,
put into their checked form. -/
theorem describeArray_settles (h : Ready env a) (place : ArrayPlace) (element : String)
    (ds : List (Nat × Nat)) (initial : Tree) {transform : Tree → List Tree → Check Tree}
    {check : List Tree → Check Nat}
    (htransform : ∀ fields record, env.fields? element = some fields →
      (Meaning.recordType fields).Describes element record → initial.isNull = false →
      (transform record (ds.map dimensionTree)).Settles a fun _ => True)
    (hcheck : initial.isNull = false →
      (check (ds.map dimensionTree)).Settles a fun _ => True) :
    (describeArray place (.text element) (.list (ds.map dimensionTree)) initial transform
      check).Settles a fun _ => True := by
  obtain ⟨size, hsize⟩ := succeeds_arraySize ds
  refine .step_bind rfl (.step_bind hsize ?_)
  have hcounted : initial.isNull = false → Settles (do
      let total ← check (ds.map dimensionTree)
      if (total : Int) ≠ size then Check.refuse (.arraySize size total) : Check Unit) a
        fun _ => True := fun hinitial =>
    (hcheck hinitial).bind fun total _ => .ite (fun _ => .refuse) fun _ => .pure trivial
  have htransformed : Settles (do
      let record ← Check.lookup (.text element)
      if (← record.isRecordEntry) && !initial.isNull then transform record (ds.map dimensionTree)
      else return initial) a fun _ => True := by
    refine h.fits.lookup_bind element (fun _ => .step_bind rfl (.pure trivial)) ?_
    intro m record hm hrecord
    refine .step_bind hrecord.isRecordEntry (.ite (fun hinitial => ?_) fun _ => .pure trivial)
    rw [Bool.and_eq_true, Bool.not_eq_true'] at hinitial
    cases m with
    | recordType fields =>
      exact htransform fields record (Env.fields?_eq_some.2 hm) hrecord hinitial.2
    | _ => exact absurd hinitial.1 nofun
  cases place with
  | constant =>
    refine .ite (fun _ => .refuse_bind) fun hinitial => ?_
    refine (hcounted (by simpa using hinitial)).bind fun _ _ => ?_
    exact htransformed.bind fun _ _ => .pure trivial
  | storage =>
    refine htransformed.bind fun values _ => .ite (fun hinitial => ?_) fun _ => .pure trivial
    exact (hcounted (by simpa using hinitial)).bind fun _ _ => .pure trivial
  | elsewhere => exact .pure trivial

theorem checkElement_settles (element : String) (level : Nat) (value : Tree) :
    (checkElement (.text element) level value).Settles a fun _ => True := by
  refine .step_bind rfl ?_
  split
  · exact .ite (fun _ => .pure trivial) fun _ => .refuse
  · exact .step_bind rfl .refuse

theorem checkElements_settles (element : String) (level : Nat) (values : List Tree) :
    (checkElements (.text element) level values).Settles a fun _ => True := by
  refine .step_bind rfl ?_
  split
  · exact .ite (fun _ => .pure trivial) fun _ => .refuse
  · exact .step_bind rfl .refuse

/-- The type of the elements of an array is looked up where its values are records. -/
theorem elementRecord_bind (h : Ready env a) (element : String) {α : Type} {f : Tree → Check α}
    {Q : α → Prop}
    (hf : ∀ (m : Meaning) (record : Tree), m.Describes element record →
      (∀ fields, m = .recordType fields → env.fields? element = some fields) →
      (f record).Settles a Q) :
    (elementRecord (.text element) >>= f).Settles a Q := by
  have hrecord : (elementRecord (.text element)).Settles a fun record =>
      ∃ m : Meaning, m.Describes element record ∧
        ∀ fields, m = .recordType fields → env.fields? element = some fields := by
    refine h.fits.lookup_bind element (fun _ => .step_bind rfl .refuse) ?_
    intro m record hm hrecord
    refine .ite (fun _ => .pure ⟨m, hrecord, ?_⟩) fun _ => .step_bind rfl .refuse
    rintro fields rfl
    exact Env.fields?_eq_some.2 hm
  refine hrecord.bind ?_
  rintro record ⟨m, hm, hfields⟩
  exact hf m record hm hfields

theorem arrayCheck_settles (h : Ready env a) (type : ArrayType) (value : Tree)
    (htransform : ∀ fields record n, env.fields? type.element = some fields →
      (Meaning.recordType fields).Describes n record →
      (transformValues record (type.dimensions.map dimensionTree) value).Settles a fun _ => True)
    (hcheck : (checkValues (.text type.element) 0 (type.dimensions.map dimensionTree)
      value).Settles a fun _ => True) :
    Settles (do
      let _ ← describeArray .storage (.text type.element)
        (.list (type.dimensions.map dimensionTree)) value
        (fun inner dims => transformValues inner dims value)
        (fun dims => checkValues (.text type.element) 0 dims value) : Check Unit) a
      fun _ => True :=
  (describeArray_settles h .storage type.element type.dimensions value
    (fun fields record hfields hrecord _ => htransform fields record _ hfields hrecord)
    fun _ => hcheck).bind fun _ _ => .pure trivial

mutual

/-- Values that are nested like an array of records can be put into their checked form. -/
theorem transformValues_settles (h : Ready env a) {fields : List (String × TypeExpr)} {n : String}
    {record : Tree} (hrecord : (Meaning.recordType fields).Describes n record)
    (ds : List (Nat × Nat)) (value : Tree) (hvalue : value.isNested env fields ds.length = true) :
    (transformValues record (ds.map dimensionTree) value).Settles a fun _ => True := by
  cases value with
  | list values =>
    cases ds with
    | nil =>
      refine (checkRecords_settles h hrecord values ?_).bind fun _ _ => .pure trivial
      rintro _ ⟨⟩
      exact hvalue
    | cons d ds =>
      exact (transformNested_settles h hrecord ds values hvalue).bind fun _ _ => .pure trivial
  | recordInit inside =>
    cases ds with
    | nil =>
      refine checkRecord_settles h hrecord inside ?_
      rintro _ ⟨⟩
      exact hvalue
    | cons d ds => cases inside <;> exact absurd hvalue nofun
  | dict entries =>
    cases ds with
    | nil =>
      refine checkDictionary_settles h hrecord ?_
      rintro _ ⟨⟩
      exact entryChecks_settle h entries hvalue
    | cons d ds => exact absurd hvalue nofun
  | text s =>
    cases ds with
    | nil => exact .refuse
    | cons d ds => exact .ite (fun _ => .pure trivial) fun _ => .refuse
  | _ =>
    cases ds with
    | nil => exact .refuse
    | cons d ds => exact absurd hvalue nofun
termination_by structural value

theorem transformNested_settles (h : Ready env a) {fields : List (String × TypeExpr)} {n : String}
    {record : Tree} (hrecord : (Meaning.recordType fields).Describes n record)
    (ds : List (Nat × Nat)) (values : List Tree)
    (hvalues : areNested env fields ds.length values = true) :
    (transformNested record (ds.map dimensionTree) values).Settles a fun _ => True := by
  cases values with
  | nil => exact .pure trivial
  | cons value rest =>
    rw [areNested, Bool.and_eq_true] at hvalues
    refine (transformValues_settles h hrecord ds value hvalues.1).bind fun _ _ => ?_
    exact (transformNested_settles h hrecord ds rest hvalues.2).bind fun _ _ => .pure trivial
termination_by structural values

/-- Values that are nested like an array, if its elements are records, can be checked and
counted. -/
theorem checkValues_settles (h : Ready env a) (element : String) (level : Nat)
    (ds : List (Nat × Nat)) (value : Tree)
    (hvalue : ∀ fields, env.fields? element = some fields →
      value.isNested env fields ds.length = true) :
    (checkValues (.text element) level (ds.map dimensionTree) value).Settles a fun _ => True := by
  cases value with
  | list values =>
    cases ds with
    | nil =>
      refine .ite (fun _ => ?_) fun _ => checkElements_settles element level values
      refine elementRecord_bind h element fun m record hrecord hm => ?_
      refine (checkRecords_settles h hrecord values fun fields hfields => ?_).bind fun _ _ =>
        .pure trivial
      exact hvalue fields (hm fields hfields)
    | cons d ds =>
      refine .step_bind rfl (.ite (fun _ => .refuse_bind) fun _ => ?_)
      exact checkNested_settles h element (level + 1) ds values hvalue
  | recordInit inside =>
    cases ds with
    | nil =>
      refine elementRecord_bind h element fun m record hrecord hm => ?_
      refine (checkRecord_settles h hrecord inside fun fields hfields => ?_).bind fun _ _ =>
        .pure trivial
      exact hvalue fields (hm fields hfields)
    | cons d ds => exact .refuse
  | dict entries =>
    cases ds with
    | nil =>
      refine elementRecord_bind h element fun m record hrecord hm => ?_
      refine (checkDictionary_settles h hrecord fun fields hfields => ?_).bind fun _ _ =>
        .pure trivial
      exact entryChecks_settle h entries (hvalue fields (hm fields hfields))
    | cons d ds => exact .refuse
  | _ =>
    cases ds with
    | nil => exact checkElement_settles element level _
    | cons d ds => exact .refuse
termination_by structural value

theorem checkNested_settles (h : Ready env a) (element : String) (level : Nat)
    (ds : List (Nat × Nat)) (values : List Tree)
    (hvalues : ∀ fields, env.fields? element = some fields →
      areNested env fields ds.length values = true) :
    (checkNested (.text element) level (ds.map dimensionTree) values).Settles a
      fun _ => True := by
  cases values with
  | nil => exact .pure trivial
  | cons value rest =>
    simp only [areNested, Bool.and_eq_true] at hvalues
    refine (checkValues_settles h element level ds value fun fields hfields =>
      (hvalues fields hfields).1).bind fun _ _ => ?_
    exact (checkNested_settles h element level ds rest fun fields hfields =>
      (hvalues fields hfields).2).bind fun _ _ => .pure trivial
termination_by structural values

theorem checkRecords_settles (h : Ready env a) {m : Meaning} {n : String} {record : Tree}
    (hrecord : m.Describes n record) (values : List Tree)
    (hvalues : ∀ fields, m = .recordType fields → areNested env fields 0 values = true) :
    (checkRecords record values).Settles a fun _ => True := by
  cases values with
  | nil => exact .pure trivial
  | cons value rest =>
    simp only [areNested, Bool.and_eq_true] at hvalues
    have hrest := checkRecords_settles h hrecord rest fun fields hfields =>
      (hvalues fields hfields).2
    cases value with
    | recordInit inside =>
      refine (checkRecord_settles h hrecord inside fun fields hfields =>
        (hvalues fields hfields).1).bind fun _ _ => ?_
      exact hrest.bind fun _ _ => .pure trivial
    | dict entries =>
      refine (checkDictionary_settles h hrecord fun fields hfields =>
        entryChecks_settle h entries (hvalues fields hfields).1).bind fun _ _ => ?_
      exact hrest.bind fun _ _ => .pure trivial
    | _ => exact (fieldInfos_settles hrecord).bind fun _ _ => .refuse
termination_by structural values

theorem checkRecord_settles (h : Ready env a) {m : Meaning} {n : String} {record : Tree}
    (hrecord : m.Describes n record) (inside : Tree)
    (hinside : ∀ fields, m = .recordType fields →
      (Tree.recordInit inside).isNested env fields 0 = true) :
    (checkRecord record inside).Settles a fun _ => True := by
  cases inside with
  | list pairs =>
    refine (fieldInfos_settles hrecord).bind ?_
    rintro infos ⟨fields, rfl, hinfos⟩
    have hname : record.get "name" = .ok (.text n) := by
      cases hrecord
      rfl
    refine .ite (fun _ => .step_bind hname (.step_bind rfl .refuse_bind)) fun _ => ?_
    refine (checkPairs_settles h hname pairs hinfos (fun f hf => List.mem_of_mem_filter hf)
      (hinside fields rfl) []).bind fun checked _ => recordValue_settles hrecord checked
  | _ =>
    refine (fieldInfos_settles hrecord).bind ?_
    rintro infos ⟨fields, rfl, -⟩
    exact absurd (hinside fields rfl) nofun
termination_by structural inside

theorem checkPairs_settles (h : Ready env a) {record : Tree} {n : String}
    (hrecord : record.get "name" = .ok (.text n)) {fields kept : List (String × TypeExpr)}
    (pairs : List Tree) {infos : List Tree} (hinfos : List.Forall₂ FieldDescribes kept infos)
    (hkept : ∀ f ∈ kept, f ∈ fields) (hpairs : pairsFit env fields pairs = true)
    (checked : List (String × Tree)) :
    (checkPairs record infos checked pairs).Settles a fun _ => True := by
  cases pairs with
  | nil => exact .pure trivial
  | cons pair rest =>
    -- All pairs that fit are tuples of a name and a value.
    cases pair with
    | tuple items =>
      rcases items with _ | ⟨first, _ | ⟨value, _ | ⟨_, _⟩⟩⟩
      · exact absurd hpairs nofun
      · cases first <;> exact absurd hpairs nofun
      · cases first with
        | text name =>
          rw [pairsFit, Bool.and_eq_true, fieldFits_iff] at hpairs
          cases hinfos with
          | nil => exact .pure trivial
          | @cons field info kept infos hfield hinfos =>
            rw [List.forall_mem_cons] at hkept
            refine Settles.bind (P := fun _ => True) ?_ fun _ _ => .step_bind rfl ?_
            · refine checkField_settles hrecord hfield value fun type htype => ?_
              have hnested := hpairs.1 type (htype ▸ hkept.1)
              refine arrayCheck_settles h type value (fun fields record n hfields hrecord => ?_) ?_
              · exact transformValues_settles h hrecord type.dimensions value
                  (hnested fields hfields)
              · exact checkValues_settles h type.element 0 type.dimensions value hnested
            · exact checkPairs_settles h hrecord rest hinfos hkept.2 hpairs.2 _
        | _ => exact absurd hpairs nofun
      · cases first <;> exact absurd hpairs nofun
    | _ => exact absurd hpairs nofun
termination_by structural pairs

theorem entryChecks_settle (h : Ready env a) {fields : List (String × TypeExpr)}
    (entries : List (String × Tree)) (hentries : entriesFit env fields entries = true) :
    ∀ e ∈ entryChecks entries, ∀ type : ArrayType, (e.1, .array type) ∈ fields →
      (e.2.2 (.text type.element)
        (.list (type.dimensions.map dimensionTree))).Settles a fun _ => True := by
  cases entries with
  | nil => exact fun _ he => absurd he List.not_mem_nil
  | cons entry rest =>
    obtain ⟨name, value⟩ := entry
    rw [entriesFit, Bool.and_eq_true, fieldFits_iff] at hentries
    rw [entryChecks, List.forall_mem_cons]
    refine ⟨fun type htype => ?_, entryChecks_settle h rest hentries.2⟩
    have hnested := hentries.1 type htype
    refine arrayCheck_settles h type value (fun fields record n hfields hrecord => ?_) ?_
    · exact transformValues_settles h hrecord type.dimensions value (hnested fields hfields)
    · exact checkValues_settles h type.element 0 type.dimensions value hnested
termination_by structural entries

end

theorem Env.fits_iff {type : String} {levels : Nat} {value : Tree} :
    env.fits type levels value = true ↔ ∀ fields, env.fields? type = some fields →
      value.isNested env fields levels = true := by
  unfold Env.fits
  cases env.fields? type <;> simp

/-- An array whose initial values, if there are any, fit its type can be described. -/
theorem arrayInfo_settles (h : Ready env a) (place : ArrayPlace) (type : ArrayType) {initial : Tree}
    (hinitial : initial.isNull = false →
      env.fits type.element type.dimensions.length initial = true) :
    (arrayInfo place (.text type.element) (.list (type.dimensions.map dimensionTree))
      initial).Settles a fun _ => True := by
  simp only [Env.fits_iff] at hinitial
  refine describeArray_settles h place type.element type.dimensions initial ?_ fun hnull => ?_
  · intro fields record hfields hrecord hnull
    exact transformValues_settles h hrecord type.dimensions initial (hinitial hnull fields hfields)
  · exact checkValues_settles h type.element 0 type.dimensions initial (hinitial hnull)

end Checked

end MiniPascal
