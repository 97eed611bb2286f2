import MiniPascal.Proofs.Analysis.Entries

/-!
# Names in Listings

What listings find out about names. A table of names gives the entry that the scopes have for a
name, if they have any, and the entry is of one of the forms that analyses give.
-/

namespace MiniPascal

open Listing

/-! ### What entries say about values -/

/-- What is written as the record type of a value: nothing, a name or the type of a parameter. -/
def Vocabulary.Owner (V : Vocabulary) (owner : String) : Prop :=
  owner = "" ∨ V.name owner ∨ ∃ type : TypeExpr, type.Within V ∧ type.toTree.plain = .ok owner

/-- What the information about the value of a name has to offer to a listing: it describes an array,
or it lacks all that only arrays have. -/
inductive ValueForm (V : Vocabulary) : Tree → Prop
  | array {info : Tree} (h : ArrayInfo V info) : ValueForm V info
  | other {info type : Tree} (hdimensions : info.get "dimensions" = .ok .null)
      (helement : info.get? "element_type" = .ok none) (htype : info.get "type" = .ok type)
      (harray : type.isTextOf "array" = false)
      (hrecord : type.isTextOf "record" = true → ∃ name shown,
        info.get "record_type" = .ok name ∧ name.plain = .ok shown ∧
          (shown = "None" ∨ V.name shown))
      (howner : ∃ owner, recordTypeName info = .ok owner ∧ V.Owner owner) : ValueForm V info

variable {V : Vocabulary} {info : Tree}

theorem Tree.eq_text_of_isTextOf {t : Tree} {s : String} (h : t.isTextOf s = true) :
    t = .text s := by
  cases t with
  | text r => rw [of_decide_eq_true h]
  | _ => exact absurd h nofun

theorem Listing.isOneOf_text {s : String} {names : List String} :
    isOneOf (.text s) names = true ↔ s ∈ names := by
  simp [isOneOf, Tree.isTextOf]

theorem BasicType.isTextOf_name (b : BasicType) :
    (Tree.text b.name).isTextOf "array" = false ∧ (Tree.text b.name).isTextOf "record" = false := by
  cases b <;> decide

theorem Entry.valueInfo {entry : Tree} (h : Entry V entry) :
    ∃ info, Listing.valueInfo entry = .ok info ∧ ValueForm V info := by
  have hempty : V.Owner "" := .inl rfl
  -- What is said about a value of a basic type and about a record.
  have hbasic : ∀ (b : BasicType) (value : Tree),
      ValueForm V (.dict [("type", .text b.name), ("value", value)]) := by
    intro b value
    have hname := BasicType.isTextOf_name b
    refine .other rfl rfl rfl hname.1 (fun h => ?_) ⟨"", rfl, hempty⟩
    exact absurd (hname.2.symm.trans h) Bool.false_ne_true
  have hrecord : ∀ {name : String}, V.name name → ∀ fields : Tree, ValueForm V
      (.dict [("type", .text "record"), ("record_type", .text name), ("fields", fields)]) :=
    fun {name} hname fields => .other rfl rfl rfl rfl
      (fun _ => ⟨_, name, rfl, rfl, .inr hname⟩) ⟨name, rfl, .inr (.inl hname)⟩
  cases h with
  | routine kind result code locals =>
    refine ⟨_, rfl, .other rfl rfl rfl rfl (fun h => absurd h Bool.false_ne_true)
      ⟨"", ?_, hempty⟩⟩
    change (if ((Tree.text kind).isTextOf "parameter" && _) = true then
      (Tree.text "").plain else (Tree.text "").plain) = .ok ""
    rw [ite_self]
    rfl
  | plain h =>
    cases h with
    | constant h =>
      cases h with
      | unknown =>
        exact ⟨_, rfl, .other rfl rfl rfl rfl (fun h => absurd h Bool.false_ne_true)
          ⟨"", rfl, hempty⟩⟩
      | basic b => exact ⟨_, rfl, hbasic b _⟩
      | array h => exact ⟨_, by cases h; rfl, .array h⟩
      | record hname => exact ⟨_, rfl, hrecord hname _⟩
    | var h =>
      cases h with
      | basic b value => exact ⟨_, rfl, hbasic b value⟩
      | array h => exact ⟨_, by cases h; rfl, .array h⟩
      | record hname fields => exact ⟨_, rfl, hrecord hname fields⟩
    | recordType =>
      exact ⟨_, rfl, .other rfl rfl rfl rfl (fun _ => ⟨_, "None", rfl, rfl, .inl rfl⟩)
        ⟨"", rfl, hempty⟩⟩
    | arrayType h => exact ⟨_, by cases h; rfl, .array h⟩
    | parameter h =>
      cases h with
      | @typed type htype =>
        have hother : type.toTree.isTextOf "array" = false ∧
            type.toTree.isTextOf "record" = false := by
          cases type <;> exact ⟨rfl, rfl⟩
        obtain ⟨owner, howner⟩ := type.succeeds_render
        refine ⟨_, rfl, .other rfl rfl rfl hother.1 (fun h => ?_)
          ⟨owner, howner, .inr (.inr ⟨type, htype, howner⟩)⟩⟩
        exact absurd (hother.2.symm.trans h) Bool.false_ne_true
      | array h => exact ⟨_, by cases h; rfl, .array h⟩

/-- What listings read off the information about an array: the type of its elements and the bounds
of its first dimension. -/
theorem ArrayInfo.exists_bounds (h : ArrayInfo V info) :
    ∃ element dimensions, ∃ low high : Nat, info.get "element_type" = .ok (.text element) ∧
      info.get? "element_type" = .ok (some (.text element)) ∧ V.name element ∧
      info.get "dimensions" = .ok (.list dimensions) ∧
      (Tree.list dimensions).item 0 = .ok (dimensionTree (low, high)) ∧
      firstBounds info = .ok (.int low, .int high) := by
  cases h with
  | @mk first others element helement size values =>
    exact ⟨element, _, first.1, first.2, rfl, rfl, helement, rfl, rfl, rfl⟩

theorem ValueForm.exists_type (h : ValueForm V info) :
    ∃ type, info.get "type" = .ok type ∧ (type.isTextOf "array" = true → ArrayInfo V info) ∧
      (type.isTextOf "record" = true → ∃ name shown,
        info.get "record_type" = .ok name ∧ name.plain = .ok shown ∧
          (shown = "None" ∨ V.name shown)) := by
  cases h with
  | array h => exact ⟨.text "array", by cases h; rfl, fun _ => h, nofun⟩
  | other _ _ htype harray hrecord _ =>
    exact ⟨_, htype, fun h => absurd (harray.symm.trans h) Bool.false_ne_true, hrecord⟩

theorem ValueForm.exists_owner (h : ValueForm V info) :
    ∃ owner, recordTypeName info = .ok owner ∧ V.Owner owner := by
  cases h with
  | array h => cases h with | mk => exact ⟨"", rfl, .inl rfl⟩
  | other _ _ _ _ _ howner => exact howner

/-- The type of the elements of a value is written as a name, or as nothing if it has none. -/
theorem ValueForm.exists_element (h : ValueForm V info) :
    ∃ element shown, info.get? "element_type" = .ok element ∧
      (element.getD (.text "")).plain = .ok shown ∧ (shown = "" ∨ V.name shown) := by
  cases h with
  | array h => cases h with | mk _ _ helement => exact ⟨_, _, rfl, rfl, .inr helement⟩
  | other _ helement => exact ⟨none, "", helement, rfl, .inl rfl⟩

/-! ### Tables -/

theorem exists_text_of_isText {t : Tree} (h : t.isText = true) : ∃ s, t = .text s := by
  cases t with
  | text s => exact ⟨s, rfl⟩
  | _ => exact absurd h nofun

namespace Listing

/-- Looking names up in the table is looking them up in the scope `k`. -/
def Table.Reads (context : Context) (table : Table) (k : Nat) : Prop :=
  ∀ name, table.entryOf context name = context.scopes.lookupTree k name

namespace Table.Reads

variable {context : Context} {table : Table} {k : Nat}

theorem scope (context : Context) (k : Nat) : Table.Reads context (.scope k) k := fun _ => rfl

/-- A table gives the entry that the scope has for a name, or the absent value. -/
theorem lookup (h : table.Reads context k) (hs : context.scopes.Within V) (n : String) :
    table.lookup context (.text n) = .ok ((context.scopes.lookupIn k n).getD .null) := by
  rw [Table.lookup, h, Scopes.lookupTree]
  cases hentry : context.scopes.lookupIn k n with
  | none => rfl
  | some entry =>
    -- No entry is itself a table.
    obtain ⟨entries, rfl⟩ := (hs.lookupIn hentry).2.exists_dict
    rfl

/-- What is no text names nothing. -/
theorem lookup_of_isKey (h : table.Reads context k) {name : Tree} (hkey : name.isKey = true)
    (htext : name.isText = false) : table.lookup context name = .ok .null := by
  have hnone : context.scopes.lookupTree k name = .ok .null := by
    unfold Scopes.lookupTree
    split
    · cases htext
    · rw [if_pos hkey]
  rw [Table.lookup, h, hnone]
  rfl

end Table.Reads

end Listing

end MiniPascal
