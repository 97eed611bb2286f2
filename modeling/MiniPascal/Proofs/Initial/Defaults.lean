import MiniPascal.Proofs.Initial.Shapes
import MiniPascal.Proofs.Safety.Defaults

/-!
# Steps of Default Values

The default value of a type follows the types of the fields of record types. Each of its steps is
said once here, for the results as well as for the errors.
-/

namespace MiniPascal

open Check Initial

def ArrayType.bounds (type : ArrayType) : List (Int × Int) :=
  type.dimensions.map fun d => (d.1, d.2)

theorem ArrayType.map_dimensionTree (type : ArrayType) :
    type.dimensions.map dimensionTree = boundTrees type.bounds := by
  rw [boundTrees, bounds, List.map_map]
  rfl

theorem filled_cons (element : Check Tree) (d : Int × Int) (dims : List (Int × Int)) :
    filled element (boundTrees (d :: dims)) = if extentOf d ≤ 0 then pure (.list []) else do
      return .list (List.replicate (extentOf d).toNat (← filled element (boundTrees dims))) :=
  rfl

section Steps

variable {env : Env} {s : Analysis} {record info : Tree} {n : String}
  {field : String × TypeExpr} {fields : List (String × TypeExpr)}

/-- The value of a field before it is set, given such values for other types. -/
def fieldDefault (value : Tree → Check Tree) : TypeExpr → Check Tree
  | .named t => value (.text t)
  | .array type => filled (value (.text type.element)) (boundTrees type.bounds)
  | _ => pure .null

/-- One field gets its value before the others, unless it has no type but the word for arrays. -/
theorem defaultFields_cons (hname : record.entry "name" = .ok (.text n))
    (hfield : FieldDescribes field info) :
    (field.2 = .named "array" ∧ ∃ cause, ∀ value infos entries,
      defaultFields value record (info :: infos) entries s = .error (.semantic cause)) ∨
    (field.2 ≠ .named "array" ∧ ∀ value infos entries,
      defaultFields value record (info :: infos) entries s =
        (fieldDefault value field.2 >>= fun v =>
          defaultFields value record infos (Tree.setEntry field.1 v entries)) s) := by
  cases hfield with
  | named name type =>
    by_cases htype : type = "array"
    · subst htype
      refine .inl ⟨rfl, .arrayFieldNotDescribed name n, fun value infos entries => ?_⟩
      change ((liftM (record.entry "name") >>= fun name' => _ : Check _) s) = _
      rw [hname]
      rfl
    · refine .inr ⟨by simpa using htype, fun value infos entries => ?_⟩
      have hno : (Tree.text type).isTextOf "array" = false := by simpa [Tree.isTextOf] using htype
      change (if (Tree.text type).isTextOf "array" then _ else _ : Check _) s = _
      rw [hno]
      rfl
  | @array name type described hdescribes =>
    refine .inr ⟨by simp, fun value infos entries => ?_⟩
    rw [fieldDefault, ← type.map_dimensionTree]
    cases hdescribes
    rfl

theorem Meaning.Describes.entry_name (h : (Meaning.recordType fields).Describes n record) :
    record.entry "name" = .ok (.text n) := by
  cases h
  rfl

/-- A record has the values of its fields, of which there must be one. -/
theorem defaultRecordWith_eq (hrecord : (Meaning.recordType fields).Describes n record) :
    (keptFields fields = [] ∧
      ∃ cause, ∀ value, defaultRecordWith value record s = .error (.semantic cause)) ∨
      ∃ infos, List.Forall₂ FieldDescribes (keptFields fields) infos ∧
        fieldInfos record s = .ok infos ∧ ∀ value, defaultRecordWith value record s =
          (defaultFields value record infos [] >>= fun entries => pure (Tree.dict entries)) s := by
  cases hrecord with
  | @recordType _ fields infos hinfos =>
    cases infos with
    | nil => exact .inl ⟨List.forall₂_nil_right_iff.1 hinfos, _, fun _ => rfl⟩
    | cons info infos => exact .inr ⟨_, hinfos, rfl, fun _ => rfl⟩

/-- A type is basic, or it is a record type, or it has no value. -/
theorem defaultWithin_succ (henv : s.Sees env) (t : String) :
    (∃ b, BasicType.ofName? t = some b ∧
      ∀ fuel, defaultWithin (fuel + 1) (.text t) .null s = .ok b.initial) ∨
    (BasicType.ofName? t = none ∧ t ≠ "array" ∧ ∃ fields record, env.fields? t = some fields ∧
      lookup (.text t) s = .ok record ∧ (Meaning.recordType fields).Describes t record ∧
      ∀ fuel, defaultWithin (fuel + 1) (.text t) .null s =
        defaultRecordWith (fun inner => defaultWithin fuel inner .null) record s) ∨
    ((t = "array" ∨ env.fields? t = none) ∧
      ∃ cause, ∀ fuel, defaultWithin (fuel + 1) (.text t) .null s = .error (.semantic cause)) := by
  have hread : (liftM (BasicType.ofTree? (.text t)) : Check _) s = .ok (BasicType.ofName? t) := rfl
  simp only [defaultWithin, bind_of_ok hread]
  cases hbasic : BasicType.ofName? t with
  | some b => exact .inl ⟨b, rfl, fun _ => rfl⟩
  | none =>
    by_cases harray : t = "array"
    · subst harray
      exact .inr (.inr ⟨.inl rfl, .arrayInfoNeeded, fun _ => rfl⟩)
    · have hno : (Tree.text t).isTextOf "array" = false := by simpa [Tree.isTextOf] using harray
      simp only [hno, Bool.false_eq_true, if_false]
      rcases henv.lookup_eq t with ⟨hnone, hlookup⟩ | ⟨m, record, hm, hlookup, hrecord⟩
      · simp only [bind_of_ok hlookup]
        exact .inr (.inr ⟨.inr (by rw [Env.fields?, hnone]), _, fun _ => rfl⟩)
      · simp only [bind_of_ok hlookup, bind_of_ok (fault_eq_ok.2 hrecord.isRecordEntry)]
        cases m with
        | recordType fields =>
          exact .inr (.inl ⟨trivial, harray, fields, record, Env.fields?_eq_some.2 hm, hlookup,
            hrecord, fun _ => rfl⟩)
        | _ => exact .inr (.inr ⟨.inr (by rw [Env.fields?, hm]), _, fun _ => rfl⟩)

end Steps

end MiniPascal
