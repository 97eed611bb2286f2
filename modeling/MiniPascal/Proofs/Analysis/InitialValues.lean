import MiniPascal.Proofs.Analysis.Alike

/-!
# Initial Values in Analyses Alike

What a declaration says about the value of a name depends on the names that have been declared, but
not on the words that routines were declared with, nor on their code. So the checks of initial
values and the making of default ones give the same in analyses that are alike.

* `Initial.checkValues_same`: the values of an array;
* `Initial.checkRecord_same`: the fields of a record;
* `Initial.constantInfo_same`, `Initial.variableInfo_same`: what is said about a name.
-/

namespace MiniPascal

namespace Check

variable {α β : Type} {a a' : Analysis} {c d : Check α}

theorem bind_congr {c c' : Check α} {f g : α → Check β} (h : c a = c' a')
    (hf : ∀ x, f x a = g x a') : (c >>= f) a = (c' >>= g) a' := by
  change (c a >>= fun x => f x a) = (c' a' >>= fun x => g x a')
  rw [h, funext hf]

/-- The check gives the same in both states, a result or an error. -/
def Same (a a' : Analysis) (c : Check α) : Prop := c a = c a'

namespace Same

variable {f : α → Check β}

theorem bind (h : Same a a' c) (hf : ∀ x, Same a a' (f x)) :
    Same a a' (c >>= f) :=
  bind_congr h hf

theorem ite {p : Prop} [Decidable p] (hc : Same a a' c) (hd : Same a a' d) :
    Same a a' (if p then c else d) := by
  split
  · exact hc
  · exact hd

/-- A check that may be made before another one. -/
theorem guard {p : Prop} [Decidable p] {first : Check β} (hfirst : Same a a' first)
    (hd : Same a a' d) : Same a a' (if p then first >>= fun _ => d else d) :=
  ite (hfirst.bind fun _ => hd) hd

theorem mapM (hf : ∀ x, Same a a' (f x)) (l : List α) :
    Same a a' (l.mapM f) := by
  induction l with
  | nil => rfl
  | cons x l ih =>
    rw [List.mapM_cons]
    exact (hf x).bind fun _ => ih.bind fun _ => rfl

end Same

section

variable {R : String → String → Prop}

/-- What is done with the entry of a name is the same in both states if it is for entries alike. -/
theorem lookup_bind_same (h : a.Alike R a') {name : Tree} {f : Tree → Check β}
    (hf : ∀ e e', EntryAlike R e e' → f e a = f e' a') : Same a a' (lookup name >>= f) := by
  cases name with
  | text n =>
    change f ((a.scopes.lookupIn a.scopes.current n).getD .null) a = f _ a'
    refine hf _ _ ?_
    rw [← h.scopes.current]
    exact h.scopes.lookupIn _ n
  | _ => exact .bind rfl fun e => hf e e (.same e)

end

end Check

namespace Initial

open Check

variable {R : String → String → Prop} {a a' : Analysis} {record record' : Tree}
  {entries : List (String × Tree × ArrayCheck)} {value : Tree → Check Tree}

/-! ### Records and arrays -/

theorem elementRecord_bind_same {β : Type} (h : a.Alike R a') {element : Tree} {f : Tree → Check β}
    (hf : ∀ e e', EntryAlike R e e' → f e a = f e' a') :
    Same a a' (elementRecord element >>= f) := by
  rw [elementRecord, bind_assoc]
  refine lookup_bind_same h fun e e' he => ?_
  rw [he.isTruthy_eq]
  split
  · exact hf e e' he
  · rw [bind_assoc]
    rfl

theorem describeArray_same (h : a.Alike R a') (place : ArrayPlace)
    (element dimensions initial : Tree) {transform : Tree → List Tree → Check Tree}
    {check : List Tree → Check Nat} (htransform : ∀ record dims, Same a a' (transform record dims))
    (hcheck : ∀ dims, Same a a' (check dims)) :
    Same a a' (describeArray place element dimensions initial transform check) := by
  refine .bind rfl fun dims => .bind rfl fun size => ?_
  have htransformed : Same a a' (do
      let record ← lookup element
      if (← record.isRecordEntry) && !initial.isNull then transform record dims
      else return initial) := by
    refine lookup_bind_same h fun e e' he => ?_
    cases he with
    | same e => exact Same.bind rfl fun _ => .ite (htransform e dims) rfl
    | routine => rfl
  have hcounted : Same a a' (do
      let total ← check dims
      if (total : Int) ≠ size then refuse (.arraySize size total)) :=
    (hcheck dims).bind fun _ => .ite rfl rfl
  cases place with
  | constant => exact .ite rfl (hcounted.bind fun _ => htransformed.bind fun _ => rfl)
  | storage => exact htransformed.bind fun _ => .ite (hcounted.bind fun _ => rfl) rfl
  | elsewhere => rfl

def arrayCheck (value : Tree) : ArrayCheck := fun element dimensions => do
  let _ ← describeArray .storage element dimensions value
    (fun inner dims => transformValues inner dims value)
    (fun dims => checkValues element 0 dims value)

theorem arrayCheck_same (h : a.Alike R a') {value : Tree}
    (htransform : ∀ dims record, Same a a' (transformValues record dims value))
    (hcheck : ∀ element level dims, Same a a' (checkValues element level dims value))
    (element dimensions : Tree) : Same a a' (arrayCheck value element dimensions) :=
  .bind (describeArray_same h .storage element dimensions value
    (fun record dims => htransform dims record) (hcheck element 0)) fun _ => rfl

theorem checkField_same (record info name value : Tree) {array : ArrayCheck}
    (harray : ∀ element dimensions, Same a a' (array element dimensions)) :
    Same a a' (checkField record info name value array) := by
  refine .bind rfl fun wanted => .bind rfl fun type => .guard rfl (.bind rfl fun basic => ?_)
  cases basic with
  | some basic => exact .ite rfl rfl
  | none =>
    refine .ite (.bind rfl fun described => .ite rfl ?_) rfl
    exact .bind rfl fun _ => .bind rfl fun _ => harray _ _

theorem checkEntries_same (h : a.Alike R a') (record : Tree)
    (hentries : ∀ entry ∈ entries, ∀ element dimensions, Same a a' (entry.2.2 element dimensions))
    (infos : List Tree) (checked : List (String × Tree)) :
    Same a a' (checkEntries record entries infos checked) := by
  induction infos generalizing checked with
  | nil => rfl
  | cons info infos ih =>
    refine .bind rfl fun field => .bind rfl fun name => .bind rfl fun type => ?_
    cases hlookup : entries.lookup name with
    | none => rfl
    | some entry =>
      obtain ⟨before, after, hsplit, -⟩ := List.lookup_eq_some_iff.1 hlookup
      have harray := hentries (name, entry) (by simp [hsplit])
      refine .bind rfl fun basic => ?_
      cases basic with
      | some basic => exact .ite rfl (ih _)
      | none =>
        refine .ite (.bind rfl fun described => .ite rfl ?_) ?_
        · exact .bind rfl fun _ => .bind rfl fun _ => (harray _ _).bind fun _ => ih _
        · refine lookup_bind_same h fun e e' he => ?_
          rw [he.isTruthy_eq]
          exact Same.ite rfl rfl

theorem checkDictionary_same (h : a.Alike R a') (record : Tree)
    (hentries : ∀ entry ∈ entries, ∀ element dimensions, Same a a' (entry.2.2 element dimensions)) :
    Same a a' (checkDictionary record entries) := by
  refine .bind (.bind rfl fun _ => .ite rfl rfl) fun infos => .bind (.mapM (fun _ => ?_) infos) ?_
  · rfl
  · exact fun _ => .ite rfl ((checkEntries_same h record hentries infos []).bind fun _ => rfl)

/-- Nothing passes as a routine. -/
theorem checkRecord_alike {fields : Tree}
    (hfields : ∀ record, Same a a' (checkRecord record fields))
    (he : EntryAlike R record record') :
    checkRecord record fields a = checkRecord record' fields a' := by
  cases he with
  | same => exact hfields record
  | routine => cases fields <;> rfl

theorem checkDictionary_alike (hentries : ∀ record, Same a a' (checkDictionary record entries))
    (he : EntryAlike R record record') :
    checkDictionary record entries a = checkDictionary record' entries a' := by
  cases he with
  | same => exact hentries record
  | routine => rfl

theorem checkRecords_alike {values : List Tree}
    (hvalues : ∀ record, Same a a' (checkRecords record values))
    (he : EntryAlike R record record') :
    checkRecords record values a = checkRecords record' values a' := by
  cases he with
  | same => exact hvalues record
  | routine =>
    cases values with
    | nil => rfl
    | cons value =>
      cases value with
      | recordInit fields => cases fields <;> rfl
      | _ => rfl

/-! ### Values without names -/

theorem transformText_same (dimensions : List Tree) (s : String) :
    Same a a' (transformText dimensions s) := by
  cases dimensions with
  | nil => rfl
  | cons => exact .ite rfl rfl

theorem checkElement_same (element : Tree) (level : Nat) (value : Tree) :
    Same a a' (checkElement element level value) := by
  refine .bind rfl fun basic => ?_
  cases basic with
  | some basic => exact .ite rfl rfl
  | none => rfl

theorem checkElements_same (element : Tree) (level : Nat) (values : List Tree) :
    Same a a' (checkElements element level values) := by
  refine .bind rfl fun basic => ?_
  cases basic with
  | some basic => exact .ite rfl rfl
  | none => rfl

/-! ### Nested values -/

mutual

theorem checkValues_same (h : a.Alike R a') : ∀ (value element : Tree) (level : Nat)
    (dimensions : List Tree), Same a a' (checkValues element level dimensions value) := by
  intro value element level dimensions
  cases value with
  | list values =>
    cases dimensions with
    | nil =>
      refine .ite (elementRecord_bind_same h fun _ _ he => ?_) (checkElements_same _ _ _)
      exact bind_congr (checkRecords_alike (checkRecords_same h values) he) fun _ => rfl
    | cons dimension rest =>
      exact .bind rfl fun _ => .ite rfl (checkNested_same h values element (level + 1) rest)
  | recordInit fields =>
    cases dimensions with
    | nil =>
      refine elementRecord_bind_same h fun _ _ he => ?_
      exact bind_congr (checkRecord_alike (checkRecord_same h fields) he) fun _ => rfl
    | cons => rfl
  | dict entries =>
    cases dimensions with
    | nil =>
      have hentries := fun record => checkDictionary_same h record (entryChecks_same h entries)
      refine elementRecord_bind_same h fun _ _ he => ?_
      exact bind_congr (checkDictionary_alike hentries he) fun _ => rfl
    | cons => rfl
  | _ =>
    cases dimensions with
    | nil => exact checkElement_same element level _
    | cons => rfl
termination_by structural value => value

theorem checkNested_same (h : a.Alike R a') : ∀ (values : List Tree) (element : Tree)
    (level : Nat) (dimensions : List Tree),
    Same a a' (checkNested element level dimensions values)
  | [], _, _, _ => rfl
  | value :: rest, element, level, dimensions =>
    (checkValues_same h value element level dimensions).bind fun _ =>
      (checkNested_same h rest element level dimensions).bind fun _ => rfl
termination_by structural values => values

theorem checkRecord_same (h : a.Alike R a') : ∀ fields record : Tree,
    Same a a' (checkRecord record fields) := by
  intro fields record
  have hinfos : Same a a' (fieldInfos record) := .bind rfl fun _ => .ite rfl rfl
  cases fields with
  | list pairs | tuple pairs =>
    refine hinfos.bind fun infos => .ite rfl ?_
    exact (checkPairs_same h pairs record infos []).bind fun _ => rfl
  | _ => exact hinfos.bind fun _ => .bind rfl fun _ => .ite rfl rfl
termination_by structural fields => fields

theorem checkPairs_same (h : a.Alike R a') : ∀ (pairs : List Tree) (record : Tree)
    (infos : List Tree) (checked : List (String × Tree)),
    Same a a' (checkPairs record infos checked pairs) := by
  intro pairs record infos checked
  match pairs with
  | [] => rfl
  | pair :: rest =>
    cases pair with
    | list items | tuple items =>
      match items, infos with
      | [_, _], [] => rfl
      | [name, value], info :: others =>
        have harray := arrayCheck_same h (transformValues_same h value) (checkValues_same h value)
        refine (checkField_same record info name value harray).bind fun _ => ?_
        exact .bind rfl fun _ => checkPairs_same h rest record others _
      | [], _ | [_], _ | _ :: _ :: _ :: _, _ => rfl
    | _ => rfl
termination_by structural pairs => pairs

theorem entryChecks_same (h : a.Alike R a') : ∀ entries : List (String × Tree),
    ∀ entry ∈ entryChecks entries, ∀ element dimensions, Same a a' (entry.2.2 element dimensions)
  | [], _, hentry => absurd hentry List.not_mem_nil
  | (name, value) :: rest, entry, hentry => by
    rcases List.mem_cons.1 hentry with rfl | hentry
    · exact arrayCheck_same h (transformValues_same h value) (checkValues_same h value)
    · exact entryChecks_same h rest entry hentry
termination_by structural entries => entries

theorem checkRecords_same (h : a.Alike R a') : ∀ (values : List Tree) (record : Tree),
    Same a a' (checkRecords record values) := by
  intro values record
  match values with
  | [] => rfl
  | value :: rest =>
    cases value with
    | recordInit fields =>
      exact (checkRecord_same h fields record).bind fun _ =>
        (checkRecords_same h rest record).bind fun _ => rfl
    | dict entries =>
      exact (checkDictionary_same h record (entryChecks_same h entries)).bind fun _ =>
        (checkRecords_same h rest record).bind fun _ => rfl
    | _ => exact .bind (.bind rfl fun _ => .ite rfl rfl) fun _ => rfl
termination_by structural values => values

theorem transformValues_same (h : a.Alike R a') : ∀ (value : Tree) (dimensions : List Tree)
    (record : Tree), Same a a' (transformValues record dimensions value) := by
  intro value dimensions record
  cases value with
  | list values =>
    cases dimensions with
    | nil => exact (checkRecords_same h values record).bind fun _ => rfl
    | cons _ rest => exact (transformNested_same h values rest record).bind fun _ => rfl
  | tuple values =>
    cases dimensions with
    | nil => rfl
    | cons _ rest => exact (transformNested_same h values rest record).bind fun _ => rfl
  | recordInit fields =>
    cases dimensions with
    | nil => exact checkRecord_same h fields record
    | cons => rfl
  | dict entries =>
    cases dimensions with
    | nil => exact checkDictionary_same h record (entryChecks_same h entries)
    | cons _ rest => exact .bind (.mapM (fun _ => transformText_same rest _) _) fun _ => rfl
  | text s => exact transformText_same dimensions s
  | _ => cases dimensions <;> rfl
termination_by structural value => value

theorem transformNested_same (h : a.Alike R a') : ∀ (values dimensions : List Tree)
    (record : Tree), Same a a' (transformNested record dimensions values)
  | [], _, _ => rfl
  | value :: rest, dimensions, record =>
    (transformValues_same h value dimensions record).bind fun _ =>
      (transformNested_same h rest dimensions record).bind fun _ => rfl
termination_by structural values => values

end

theorem arrayInfo_same (h : a.Alike R a') (place : ArrayPlace) (element dimensions initial : Tree) :
    Same a a' (arrayInfo place element dimensions initial) :=
  describeArray_same h place element dimensions initial
    (fun record dims => transformValues_same h initial dims record)
    (checkValues_same h initial element 0)

/-! ### Default values -/

theorem filled_same {element : Check Tree} (helement : Same a a' element) :
    ∀ dimensions : List Tree, Same a a' (filled element dimensions)
  | [] => helement
  | _ :: rest => .bind rfl fun _ => .ite rfl ((filled_same helement rest).bind fun _ => rfl)

theorem defaultFields_same (hvalue : ∀ type, Same a a' (value type)) (record : Tree)
    (infos : List Tree) (fields : List (String × Tree)) :
    Same a a' (defaultFields value record infos fields) := by
  induction infos generalizing fields with
  | nil => rfl
  | cons info rest ih =>
    refine .bind rfl fun name => .bind rfl fun type => ?_
    have hnext : ∀ initial, Same a a' (do
        defaultFields value record rest (Tree.setEntry (← name.key) initial fields)) :=
      fun initial => .bind rfl fun _ => ih _
    refine .ite (.bind rfl fun described => .ite rfl ?_) ((hvalue type).bind hnext)
    refine .bind rfl fun _ => .bind rfl fun element => .bind rfl fun dims => ?_
    exact (filled_same (hvalue element) dims).bind hnext

theorem defaultRecordWith_same (hvalue : ∀ type, Same a a' (value type)) (record : Tree) :
    Same a a' (defaultRecordWith value record) := by
  refine .bind rfl fun type => .ite rfl (.bind (.bind rfl fun _ => .ite rfl rfl) fun infos => ?_)
  exact (defaultFields_same hvalue record infos []).bind fun _ => rfl

theorem defaultWithin_same (h : a.Alike R a') : ∀ (fuel : Nat) (type extra : Tree),
    Same a a' (defaultWithin fuel type extra)
  | 0, _, _ => rfl
  | fuel + 1, type, extra => by
    refine .bind rfl fun basic => ?_
    cases basic with
    | some basic => rfl
    | none =>
      refine .ite (.ite rfl ?_) (lookup_bind_same h fun e e' he => ?_)
      · refine .bind rfl fun _ => .bind rfl fun element => .bind rfl fun dims => ?_
        exact filled_same (defaultWithin_same h fuel element .null) dims
      · cases he with
        | same =>
          exact Same.bind rfl fun _ => .ite
            (defaultRecordWith_same (fun inner => defaultWithin_same h fuel inner .null) e) rfl
        | routine => rfl

/-- The search for default values goes as far in both runs. -/
theorem defaultValue_same (h : a.Alike R a') (type extra : Tree) :
    Same a a' (defaultValue type extra) := by
  change defaultWithin (a.symbolCount + 2) type extra a = defaultWithin (a'.symbolCount + 2) _ _ a'
  rw [h.symbolCount_eq]
  exact defaultWithin_same h _ type extra

/-! ### What is said about a name -/

theorem constantInfo_same (h : a.Alike R a') (value : Tree) : Same a a' (constantInfo value) := by
  refine .bind rfl fun type => .bind rfl fun given => .bind rfl fun basic => ?_
  cases basic with
  | some basic =>
    refine .ite rfl ?_
    split
    · split <;> rfl
    · rfl
  | none =>
    dsimp only
    split
    · exact arrayInfo_same h .constant _ _ _
    · refine lookup_bind_same h fun e e' he => ?_
      rw [he.isTruthy_eq]
      split
      · split
        · exact checkRecord_alike (checkRecord_same h _) he
        · rfl
      · rfl

theorem filledType_same (h : a.Alike R a') (type : Tree) : Same a a' (filledType type) := by
  unfold filledType
  split
  · refine .bind (.bind rfl fun dims => ?_) fun _ => rfl
    exact filled_same (defaultValue_same h _ .null) dims
  · rfl

theorem variableInfo_same (h : a.Alike R a') (type initial : Tree) :
    Same a a' (variableInfo type initial) := by
  refine .bind rfl fun basic => ?_
  cases basic with
  | some basic => exact .ite rfl (.ite rfl rfl)
  | none =>
    refine (filledType_same h type).bind fun filled => ?_
    split
    · exact arrayInfo_same h .storage _ _ _
    · refine lookup_bind_same h fun e e' he => ?_
      cases he with
      | same =>
        refine Same.bind rfl fun _ => .ite ?_ rfl
        split
        · exact (defaultRecordWith_same (fun type => defaultValue_same h type .null) e).bind
            fun _ => rfl
        · exact (checkRecord_same h _ e).bind fun _ => rfl
        · rfl
      | routine => rfl

end Initial

namespace Declaring

open Check Initial

variable {R : String → String → Prop} {a a' : Analysis}

theorem fieldInfo_same (h : a.Alike R a') (name type : Tree) : Same a a' (fieldInfo name type) := by
  unfold fieldInfo
  split
  · refine .ite (lookup_bind_same h fun e e' he => ?_) rfl
    rw [he.isTruthy_eq]
    exact Same.ite rfl rfl
  · exact (arrayInfo_same h .storage _ _ _).bind fun _ => rfl
  · rfl

theorem fieldInfoList_same (h : a.Alike R a') : ∀ fields : List Tree,
    Same a a' (fieldInfoList fields)
  | [] => rfl
  | _ :: rest =>
    .bind rfl fun _ => (fieldInfo_same h _ _).bind fun _ =>
      (fieldInfoList_same h rest).bind fun _ => rfl

theorem parameterTypes_same (h : a.Alike R a') : ∀ (parameters : List Tree) (array : Option Tree),
    Same a a' (parameterTypes parameters array)
  | [], _ => rfl
  | parameter :: rest, array => by
    have hnext : ∀ found : Tree × Option Tree, Same a a' (do
        let name ← parameter.part "identifier"
        let typed ← parameterTypes rest found.2
        return ((name, found.1) :: typed.1, typed.2)) := fun found =>
      .bind rfl fun _ => (parameterTypes_same h rest found.2).bind fun _ => rfl
    refine .bind rfl fun declared => ?_
    split
    · exact (arrayInfo_same h .storage _ _ _).bind fun described =>
        hnext (.text "array", some described)
    · exact hnext (declared, array)

theorem routineParameters_same (h : a.Alike R a') (parameters : Tree) :
    Same a a' (routineParameters parameters) :=
  .ite (.bind rfl fun _ => parameterTypes_same h _ none) rfl

end Declaring

end MiniPascal
