import MiniPascal.Proofs.Analysis.Untouched
import MiniPascal.Proofs.Rendering

/-!
# Names That Are Visible

What the names that are visible at some point of a program stand for, as its declarations tell. An
analysis keeps entries for names in a table; `Env.Fits` says that the entries that are found from a
scope describe what the names stand for, and every declaration that is accepted keeps it.

* `declareItem_fits`: a declaration makes its name visible.
-/

namespace MiniPascal

open Check Declare Declaring Initial

/-! ### Meanings of names -/

/-- What a name stands for, as far as its declaration tells. -/
inductive Meaning where
  /-- A constant or a variable. -/
  | value (type : DeclaredType)
  /-- A constant of a type that is not known. -/
  | unknown
  | recordType (fields : List (String × TypeExpr))
  | arrayType (type : ArrayType)
  /-- A parameter of any type but an array type. -/
  | parameter (type : TypeExpr)
  /-- A parameter of an array type, with the array type that it is taken to have. -/
  | arrayParameter (own known : ArrayType)
  | routine (kind : String) (parameters : List Parameter) (result : TypeExpr)

/-- The names that are visible, the last one first. -/
abbrev Env := List (String × Meaning)

def Env.has (env : Env) (n : String) : Bool := (env.lookup n).isSome

def Env.knowsType (env : Env) (n : String) : Bool := (BasicType.ofName? n).isSome || env.has n

/-- Whether a table keeps a field of a record type: its type is a name or an array type. -/
def TypeExpr.isKept : TypeExpr → Bool
  | .named _ => true
  | .array _ => true
  | _ => false

def keptFields (fields : List (String × TypeExpr)) : List (String × TypeExpr) :=
  fields.filter (·.2.isKept)

/-! ### Entries that describe them -/

/-- The information about an array of the type, whatever its initial values are. -/
inductive ArrayType.Describes (type : ArrayType) : Tree → Prop
  | mk (size : Int) (values : Tree) :
    Describes type (.dict [("type", .text "array"), ("element_type", .text type.element),
      ("size", .int size), ("dimensions", .list (type.dimensions.map dimensionTree)),
      ("initial_values", values)])

/-- The information about a field. -/
inductive FieldDescribes : String × TypeExpr → Tree → Prop
  | named (name type : String) :
    FieldDescribes (name, .named type)
      (.dict [("field_name", .text name), ("field_type", .text type)])
  | array (name : String) {type : ArrayType} {info : Tree} (h : type.Describes info) :
    FieldDescribes (name, .array type)
      (.dict [("field_name", .text name), ("field_type", .text "array"), ("arr_info", info)])

/-- The type of a parameter as it is kept with its routine: all array types are the same. -/
def Parameter.keptType (p : Parameter) : Tree :=
  match p.type with
  | .array _ => .text "array"
  | type => type.toTree

def Parameter.pair (p : Parameter) : Tree × Tree := (.text p.name, p.keptType)

def valueWord (isConst : Bool) : String := if isConst then "const" else "var"

/-- The entry of a name that stands for something. -/
inductive Meaning.Describes : Meaning → String → Tree → Prop
  | basic (isConst : Bool) (name : String) (b : BasicType) (value : Tree) :
    Describes (.value (.named b.name)) name (.dict [("type", .text (valueWord isConst)),
      ("info", .dict [("type", .text b.name), ("value", value)])])
  | record (isConst : Bool) (name : String) {type : String} (h : BasicType.ofName? type = none)
      (fields : Tree) :
    Describes (.value (.named type)) name (.dict [("type", .text (valueWord isConst)),
      ("info", .dict [("type", .text "record"), ("record_type", .text type), ("fields", fields)])])
  | array (isConst : Bool) (name : String) {type : ArrayType} {info : Tree}
      (h : type.Describes info) :
    Describes (.value (.array type)) name
      (.dict [("type", .text (valueWord isConst)), ("info", info)])
  | unknown (name : String) :
    Describes .unknown name (.dict [("type", .text "const"), ("info", .null)])
  | recordType (name : String) {fields : List (String × TypeExpr)} {infos : List Tree}
      (h : List.Forall₂ FieldDescribes (keptFields fields) infos) :
    Describes (.recordType fields) name
      (.dict [("name", .text name), ("type", .text "record"), ("fields_info", .list infos)])
  | arrayType (name : String) {type : ArrayType} {info : Tree} (h : type.Describes info) :
    Describes (.arrayType type) name (.dict [("info", info)])
  | parameter (name : String) {type : TypeExpr} (h : ∀ array, type ≠ .array array) :
    Describes (.parameter type) name (.dict [("kind", .text "parameter"), ("type", type.toTree)])
  | arrayParameter (name : String) (own : ArrayType) {known : ArrayType} {info : Tree}
      (h : known.Describes info) :
    Describes (.arrayParameter own known) name
      (.dict [("kind", .text "parameter"), ("info", info)])
  | routine (kind name : String) (parameters : List Parameter) (result : TypeExpr)
      (code locals : Tree) :
    Describes (.routine kind parameters result) name
      (routineInfo (.text kind) result.toTree code locals (parameters.map Parameter.pair))

/-- The name is the same, and the entry describes what it stands for. -/
def Matches (e : String × Meaning) (symbol : String × Tree) : Prop :=
  e.1 = symbol.1 ∧ e.2.Describes symbol.1 symbol.2

/-- From the scope `k` the names of `env` are found, with entries that describe them. -/
inductive Env.Fits (scopes : Scopes) : Env → Nat → Prop
  | root {own : Env} {k : Nat} (hsize : k < scopes.all.size) (hparent : scopes.parentOf k = none)
      (hnodup : ((scopes.symbolsOf k).map Prod.fst).Nodup)
      (hown : List.Forall₂ Matches own (scopes.symbolsOf k).reverse) : Fits scopes own k
  | inside {own env : Env} {k home : Nat} (hsize : k < scopes.all.size)
      (hparent : scopes.parentOf k = some home) (hhome : home < k)
      (hnodup : ((scopes.symbolsOf k).map Prod.fst).Nodup)
      (hown : List.Forall₂ Matches own (scopes.symbolsOf k).reverse)
      (hrest : Fits scopes env home) : Fits scopes (own ++ env) k

/-- The names of `env` are found from the current scope. -/
abbrev Analysis.Sees (a : Analysis) (env : Env) : Prop := env.Fits a.scopes a.scopes.current

/-! ### What is found -/

/-- The entry that is found for a name in one scope. -/
theorem lookup_of_matches {own : Env} {symbols : List (String × Tree)}
    (hnodup : (symbols.map Prod.fst).Nodup) (h : List.Forall₂ Matches own symbols.reverse)
    (n : String) :
    (own.lookup n = none ∧ symbols.lookup n = none) ∨
      ∃ m entry, own.lookup n = some m ∧ symbols.lookup n = some entry ∧ m.Describes n entry := by
  -- The scope has its names in order and the names that are visible come in reverse.
  have hfind : ∀ {own : Env} {found : List (String × Tree)}, List.Forall₂ Matches own found →
      (own.lookup n = none ∧ n ∉ found.map Prod.fst) ∨
        ∃ m entry, own.lookup n = some m ∧ (n, entry) ∈ found ∧ m.Describes n entry := by
    intro own found h
    induction h with
    | nil => exact .inl ⟨rfl, List.not_mem_nil⟩
    | @cons e symbol own found he _ ih =>
      obtain ⟨name, m⟩ := e
      obtain ⟨name', entry⟩ := symbol
      obtain ⟨rfl, hm⟩ : name = name' ∧ m.Describes name' entry := he
      by_cases hn : n = name
      · subst hn
        exact .inr ⟨m, entry, List.lookup_cons_self, List.mem_cons_self, hm⟩
      · rw [List.lookup_cons, beq_eq_false_iff_ne.2 hn]
        rcases ih with ⟨hown, hfound⟩ | ⟨m', entry', hown, hmem, hm'⟩
        · exact .inl ⟨hown, by simpa [hn] using hfound⟩
        · exact .inr ⟨m', entry', hown, List.mem_cons_of_mem _ hmem, hm'⟩
  rcases hfind h with ⟨hown, hnone⟩ | ⟨m, entry, hown, hmem, hm⟩
  · rw [List.map_reverse, List.mem_reverse] at hnone
    exact .inl ⟨hown, Scopes.lookup_eq_none.2 hnone⟩
  · exact .inr ⟨m, entry, hown, Scopes.lookup_of_mem hnodup (List.mem_reverse.1 hmem), hm⟩

namespace Env.Fits

variable {scopes scopes' : Scopes} {env : Env} {k : Nat}

section

variable (h : env.Fits scopes k)

include h

theorem lt_size : k < scopes.all.size := by
  cases h with
  | root hsize | inside hsize => exact hsize

/-- What is found for a name from a scope on, as far up as needed. -/
theorem find (n : String) : ∀ {fuel : Nat}, k < fuel →
    (env.lookup n = none ∧ scopes.find n fuel k = none) ∨
      ∃ m home entry, env.lookup n = some m ∧ scopes.find n fuel k = some (home, entry) ∧
        m.Describes n entry := by
  induction h with
  | @root own k hsize hparent hnodup hown =>
    intro fuel hfuel
    obtain ⟨fuel, rfl⟩ : ∃ f, fuel = f + 1 := ⟨fuel - 1, by omega⟩
    rcases lookup_of_matches hnodup hown n with ⟨hnone, hsymbols⟩ | ⟨m, entry, hm, hsymbols, hd⟩
    · exact .inl ⟨hnone, by simp [Scopes.find, hsymbols, hparent]⟩
    · exact .inr ⟨m, k, entry, hm, by simp [Scopes.find, hsymbols], hd⟩
  | @inside own env k home hsize hparent hhome hnodup hown hrest ih =>
    intro fuel hfuel
    obtain ⟨fuel, rfl⟩ : ∃ f, fuel = f + 1 := ⟨fuel - 1, by omega⟩
    rcases lookup_of_matches hnodup hown n with ⟨hnone, hsymbols⟩ | ⟨m, entry, hm, hsymbols, hd⟩
    · have hlookup : (own ++ env).lookup n = env.lookup n := by
        rw [List.lookup_append, hnone, Option.none_or]
      have hfind : scopes.find n (fuel + 1) k = scopes.find n fuel home := by
        simp [Scopes.find, hsymbols, hparent]
      rw [hlookup, hfind]
      exact ih (by omega)
    · refine .inr ⟨m, k, entry, ?_, by simp [Scopes.find, hsymbols], hd⟩
      rw [List.lookup_append, hm, Option.some_or]

/-- What is found for a name describes what it stands for. -/
theorem lookup (n : String) :
    (env.lookup n = none ∧ scopes.lookupIn k n = none) ∨
      ∃ m entry, env.lookup n = some m ∧ scopes.lookupIn k n = some entry ∧
        m.Describes n entry := by
  rcases h.find n h.lt_size with ⟨hnone, hfind⟩ | ⟨m, home, entry, hm, hfind, hd⟩
  · exact .inl ⟨hnone, by rw [Scopes.lookupIn, Scopes.resolve, hfind, Option.map_none]⟩
  · exact .inr ⟨m, entry, hm, by rw [Scopes.lookupIn, Scopes.resolve, hfind, Option.map_some], hd⟩

/-- Only the scope and those around it, which have smaller numbers, matter. -/
theorem congr (hsize : scopes.all.size ≤ scopes'.all.size)
    (hsame : ∀ j ≤ k, scopes'.all[j]? = scopes.all[j]?) : env.Fits scopes' k := by
  induction h with
  | @root own k hk hparent hnodup hown =>
    have hk' := hsame k (Nat.le_refl k)
    refine .root (Nat.lt_of_lt_of_le hk hsize) ?_ ?_ ?_
    · rw [Scopes.parentOf_congr hk', hparent]
    · rwa [Scopes.symbolsOf_congr hk']
    · rwa [Scopes.symbolsOf_congr hk']
  | @inside own env k home hk hparent hhome hnodup hown hrest ih =>
    have hk' := hsame k (Nat.le_refl k)
    refine .inside (Nat.lt_of_lt_of_le hk hsize) ?_ hhome ?_ ?_ (ih fun j hj => ?_)
    · rw [Scopes.parentOf_congr hk', hparent]
    · rwa [Scopes.symbolsOf_congr hk']
    · rwa [Scopes.symbolsOf_congr hk']
    · exact hsame j (Nat.le_trans hj (Nat.le_of_lt hhome))

theorem grow {added : List (String × Tree)} {new : Env} (hgrows : scopes.Grows k scopes' added)
    (hnew : List.Forall₂ Matches new added.reverse) :
    Env.Fits scopes' (new ++ env) k := by
  have hown : ∀ {own : Env}, List.Forall₂ Matches own (scopes.symbolsOf k).reverse →
      List.Forall₂ Matches (new ++ own) (scopes'.symbolsOf k).reverse := by
    intro own hown
    rw [hgrows.symbols, List.reverse_append]
    exact List.rel_append hnew hown
  cases h with
  | root hsize hparent hnodup hold =>
    exact .root (Nat.lt_of_lt_of_le hsize hgrows.size_le) (hgrows.parent.trans hparent)
      (hgrows.nodup hnodup) (hown hold)
  | @inside _ rest _ home hsize hparent hhome hnodup hold hrest =>
    rw [← List.append_assoc]
    refine .inside (Nat.lt_of_lt_of_le hsize hgrows.size_le) (hgrows.parent.trans hparent) hhome
      (hgrows.nodup hnodup) (hown hold) (hrest.congr hgrows.size_le fun j hj => ?_)
    exact hgrows.others j (Nat.lt_trans (Nat.lt_of_le_of_lt hj hhome) hsize)
      (Nat.ne_of_lt (Nat.lt_of_le_of_lt hj hhome))

end

/-- Looking a name up gives an entry that describes what the name stands for. -/
theorem lookup_eq {a : Analysis} (h : a.Sees env) (n : String) :
    (env.lookup n = none ∧ Check.lookup (.text n) a = .ok .null) ∨
      ∃ m entry, env.lookup n = some m ∧ Check.lookup (.text n) a = .ok entry ∧
        m.Describes n entry := by
  simp only [lookup_eq_ok, Scopes.lookupTree]
  rcases h.lookup n with ⟨hnone, hlookup⟩ | ⟨m, entry, hm, hlookup, hd⟩
  · exact .inl ⟨hnone, by rw [hlookup]; rfl⟩
  · exact .inr ⟨m, entry, hm, by rw [hlookup]; rfl, hd⟩

/-- In a new scope, which has no names of its own, the same names are visible. -/
theorem enter (h : env.Fits scopes scopes.current) :
    env.Fits scopes.enter scopes.enter.current := by
  have hrest : env.Fits scopes.enter scopes.current :=
    h.congr (by simp [Scopes.enter]) fun j hj =>
      Scopes.getElem?_openIn _ (Nat.lt_of_le_of_lt hj h.lt_size)
  have hsymbols : scopes.enter.symbolsOf scopes.all.size = [] := Scopes.symbolsOf_openIn _
  rw [← List.nil_append env]
  refine .inside ?_ (Scopes.parentOf_openIn _) h.lt_size ?_ ?_ hrest
  · exact Nat.lt_of_lt_of_eq (Nat.lt_succ_self _) (Scopes.size_openIn _).symm
  · exact (congrArg (·.map Prod.fst) hsymbols) ▸ List.nodup_nil
  · exact (congrArg List.reverse hsymbols) ▸ .nil

end Env.Fits

def Meaning.isRecordType : Meaning → Bool
  | .recordType _ => true
  | _ => false

variable {n : String}

theorem Meaning.Describes.isRecordEntry {m : Meaning} {entry : Tree} (h : m.Describes n entry) :
    entry.isRecordEntry = .ok m.isRecordType := by
  cases h with
  | basic isConst | record isConst | array isConst => cases isConst <;> rfl
  | @parameter _ type => cases type <;> rfl
  | _ => rfl

/-- An entry is never empty. -/
theorem Meaning.Describes.isTruthy {m : Meaning} {entry : Tree} (h : m.Describes n entry) :
    entry.isTruthy = true := by
  cases h <;> rfl

/-! ### Declarations -/

def DeclaredType.constant (env : Env) : DeclaredType → Meaning
  | .named n => if env.knowsType n then .value (.named n) else .unknown
  | .array type => .value (.array type)

/-- The type of a variable: that of the one before it, if it stands in one group with it. -/
def sharedType (before : Option DeclaredType) (type : DeclaredType) (sharesType : Bool) :
    DeclaredType :=
  if sharesType then before.getD type else type

def Decl.extend (env : Env) (before : Option DeclaredType) : Decl → Env
  | .type n (.record fields) => (n, .recordType fields) :: env
  | .type n (.array declared) => (n, .arrayType declared) :: env
  | .type _ _ => env
  | .const n declared _ => (n, declared.constant env) :: env
  | .var n declared _ sharesType => (n, .value (sharedType before declared sharesType)) :: env
  | .routine kind n ps _ result => (n, .routine kind ps result) :: env

/-- The type that the next variable may share. -/
def Decl.type? (before : Option DeclaredType) : Decl → Option DeclaredType
  | .var _ declared _ sharesType => some (sharedType before declared sharesType)
  | _ => none

def declsEnv (env : Env) (before : Option DeclaredType) : List Decl → Env
  | [] => env
  | d :: ds => declsEnv (d.extend env before) (d.type? before) ds

/-- The last array type among those of parameters, or the given one if there is none. -/
def lastArray? (last : Option ArrayType) : List Parameter → Option ArrayType
  | [] => last
  | p :: ps =>
    match p.type with
    | .array type => lastArray? (some type) ps
    | _ => lastArray? last ps

/-- What a parameter stands for. All arrays are taken to have the type of the last one. -/
def Parameter.meaning (last : Option ArrayType) (p : Parameter) : Meaning :=
  match p.type with
  | .array type => .arrayParameter type (last.getD type)
  | type => .parameter type

def parameterMeanings (last : Option ArrayType) (ps : List Parameter) : Env :=
  ps.map fun p => (p.name, p.meaning last)

def routineEnv (env : Env) (kind n : String) (ps : List Parameter) (result : TypeExpr) : Env :=
  (parameterMeanings (lastArray? none ps) ps).reverse ++ (n, .routine kind ps result) :: env

mutual

/-- `P` holds of the statements of a block and of all routines in it, with the names that are
visible there. -/
def Block.EachBody (P : Env → List Stmt → Prop) (env : Env) : Block → Prop
  | .mk ds ss => declsEachBody P env none ds ∧ P (declsEnv env none ds) ss

/-- `P` holds of the statements of all bodies in a declaration. -/
def Decl.EachBody (P : Env → List Stmt → Prop) (env : Env) : Decl → Prop
  | .routine kind n ps body result => body.EachBody P (routineEnv env kind n ps result)
  | _ => True

/-- `P` holds of the statements of all bodies in declarations. -/
def declsEachBody (P : Env → List Stmt → Prop) (env : Env) (before : Option DeclaredType) :
    List Decl → Prop
  | [] => True
  | d :: ds => d.EachBody P env ∧ declsEachBody P (d.extend env before) (d.type? before) ds

end

section EachBody

variable {P Q : Env → List Stmt → Prop}

mutual

theorem Block.EachBody.mono (h : ∀ env ss, P env ss → Q env ss) : ∀ {b : Block} {env : Env},
    b.EachBody P env → b.EachBody Q env
  | .mk _ _, _, ⟨hds, hss⟩ => ⟨declsEachBody.mono h hds, h _ _ hss⟩

theorem Decl.EachBody.mono (h : ∀ env ss, P env ss → Q env ss) : ∀ {d : Decl} {env : Env},
    d.EachBody P env → d.EachBody Q env
  | .type _ _, _, _ | .const _ _ _, _, _ | .var _ _ _ _, _, _ => trivial
  | .routine _ _ _ _ _, _, hbody => Block.EachBody.mono h hbody

theorem declsEachBody.mono (h : ∀ env ss, P env ss → Q env ss) : ∀ {ds : List Decl} {env : Env}
    {before : Option DeclaredType}, declsEachBody P env before ds → declsEachBody Q env before ds
  | [], _, _, _ => trivial
  | _ :: _, _, _, ⟨hd, hds⟩ => ⟨Decl.EachBody.mono h hd, declsEachBody.mono h hds⟩

end

end EachBody

/-! ### Entries that are made -/

theorem ofName?_eq_some {b : BasicType} (h : BasicType.ofName? n = some b) :
    n = b.name := by
  have hname := List.find?_some h
  exact (beq_iff_eq.1 hname).symm

section Made

variable {a : Analysis} {env : Env} {place : ArrayPlace} {type : DeclaredType}

/-- An array that is described anywhere but elsewhere has its dimensions and the type of its
elements. -/
theorem describeArray_describes (hplace : place ≠ .elsewhere) (type : ArrayType) (initial : Tree)
    (transform : Tree → List Tree → Check Tree) (check : List Tree → Check Nat) :
    (describeArray place (.text type.element) (.list (type.dimensions.map dimensionTree)) initial
      transform check).Ensures a type.Describes := by
  refine .bind fun dims _ => .bind fun size _ => ?_
  cases place with
  | constant =>
    refine .ite (fun _ => ?_) fun _ => .bind fun _ _ => .bind fun values _ => ?_
    · exact .refuse_bind
    · exact .pure (.mk size values)
  | storage =>
    refine .bind fun values _ => .ite (fun _ => .bind fun _ _ => ?_) fun _ => ?_
    · exact .pure (.mk size values)
    · exact .pure (.mk size values)
  | elsewhere => exact absurd rfl hplace

/-- What is known about an array that is declared. -/
theorem arrayInfo_describes (hplace : place ≠ .elsewhere) (type : ArrayType) (initial : Tree) :
    (arrayInfo place (.text type.element) (.list (type.dimensions.map dimensionTree))
      initial).Ensures a type.Describes :=
  describeArray_describes hplace type initial _ _

theorem checkRecord_describes {type : String} (hbasic : BasicType.ofName? type = none) {m : Meaning}
    {record : Tree} (h : m.Describes type record) (fs : List (String × ConstValue)) (n : String) :
    (checkRecord record (.list (fieldTrees fs))).Ensures a fun info =>
      Meaning.Describes (.value (.named type)) n
        (.dict [("type", .text "const"), ("info", info)]) := by
  refine .bind fun infos hinfos => .ite (fun _ => ?_) fun _ => .bind fun fields _ => ?_
  · exact .of_stops (by simp)
  · -- Only record types have fields, and they are known by their own name.
    have hname : record.entry "name" = .ok (.text type) := by
      obtain ⟨fields, hfields, hinfos⟩ := bind_eq_ok.1 hinfos
      cases h with
      | recordType => rfl
      | _ =>
        obtain rfl := Except.ok.inj hfields
        exact absurd hinfos ((Stops.bind fun _ => by simp) _)
    exact .step_bind hname (.pure (.record true n hbasic _))

theorem constantInfo_describes (h : a.Sees env) (type : DeclaredType)
    (value : Option ConstValue) (n : String) :
    (constantInfo (.tuple [type.toTree, Tree.ofOption (value.map ConstValue.toTree)])).Ensures a
      fun info => (type.constant env).Describes n
        (.dict [("type", .text "const"), ("info", info)]) := by
  refine .step_bind rfl (.step_bind rfl ?_)
  cases type with
  | array type =>
    exact .step_bind rfl ((arrayInfo_describes (by decide) type _).mono fun _ => .array true n)
  | named type =>
    refine .step_bind rfl ?_
    cases hbasic : BasicType.ofName? type with
    | some b =>
      obtain rfl := ofName?_eq_some hbasic
      have hconstant : DeclaredType.constant env (.named b.name) = .value (.named b.name) :=
        if_pos (by simp [Env.knowsType, hbasic])
      rw [hconstant]
      refine .ite (fun _ => .refuse_bind) fun _ => ?_
      split
      · split
        · exact .pure (.basic true n _ _)
        · exact .refuse
      · exact .pure (.basic true n _ _)
    | none =>
      refine .bind fun record hrecord => ?_
      rcases h.lookup_eq type with ⟨hnone, hlookup⟩ | ⟨m, entry, hm, hlookup, hentry⟩
      · -- A constant of an unknown type is kept without a value.
        obtain rfl : Tree.null = record := Except.ok.inj (hlookup.symm.trans hrecord)
        have hconstant : DeclaredType.constant env (.named type) = .unknown :=
          if_neg (by simp [Env.knowsType, Env.has, hbasic, hnone])
        rw [hconstant]
        exact .pure (.unknown n)
      · obtain rfl : entry = record := Except.ok.inj (hlookup.symm.trans hrecord)
        have hconstant : DeclaredType.constant env (.named type) = .value (.named type) :=
          if_pos (by simp [Env.knowsType, Env.has, hm])
        rw [hconstant]
        refine .ite (fun _ => ?_) fun hnot => absurd hentry.isTruthy hnot
        cases value with
        | none => exact .bind fun _ _ => .refuse
        | some v =>
          cases v with
          | record fs => exact checkRecord_describes hbasic hentry fs n
          | _ => exact .bind fun _ _ => .refuse

/-- The type of a variable, an array type with any initial values. -/
inductive DeclaredType.StoredAs : DeclaredType → Tree → Prop
  | named (n : String) : StoredAs (.named n) (.text n)
  | array (type : ArrayType) (values : Tree) :
    StoredAs (.array type)
      (.arrayType (.list (type.dimensions.map dimensionTree)) (.text type.element) values)

theorem DeclaredType.storedAs (type : DeclaredType) : type.StoredAs type.toTree := by
  cases type with
  | named n => exact .named n
  | array type => exact .array type _

theorem filledType_arrayType_ensures (a : Analysis) (dimensions element initial : Tree) :
    (filledType (.arrayType dimensions element initial)).Ensures a fun t =>
      ∃ values, t = .arrayType dimensions element values := by
  unfold filledType
  split
  next heq =>
    obtain ⟨rfl, rfl, -⟩ := Tree.arrayType.inj heq
    exact .bind fun values _ => .pure ⟨values, rfl⟩
  next => exact .pure ⟨initial, rfl⟩

theorem filledType_storedAs {t : Tree} (h : type.StoredAs t) :
    (filledType t).Ensures a type.StoredAs := by
  cases h with
  | named n => exact .pure (.named n)
  | array type values =>
    refine (filledType_arrayType_ensures a _ _ values).mono ?_
    rintro _ ⟨values, rfl⟩
    exact .array type values

theorem variableInfo_describes {t : Tree} (h : type.StoredAs t) (initial : Tree) (n : String) :
    (variableInfo t initial).Ensures a fun info =>
      (Meaning.value type).Describes n (.dict [("type", .text "var"), ("info", info)]) := by
  cases h with
  | array type values =>
    refine .step_bind rfl (.bind fun filled hfilled => ?_)
    obtain ⟨values', rfl⟩ := filledType_arrayType_ensures a _ _ values filled hfilled
    exact (arrayInfo_describes (by decide) type values').mono fun _ => .array false n
  | named type =>
    refine .step_bind rfl ?_
    cases hbasic : BasicType.ofName? type with
    | some b =>
      obtain rfl := ofName?_eq_some hbasic
      refine .ite (fun _ => .pure (.basic false n b _)) fun _ => ?_
      exact .ite (fun _ => .pure (.basic false n b _)) fun _ => .refuse
    | none =>
      refine .bind fun filled hfilled => ?_
      obtain rfl : Tree.text type = filled := pure_eq_ok.1 hfilled
      refine .bind fun record _ => .bind fun isRecord _ => .ite (fun _ => ?_) fun _ => ?_
      · split
        · exact .bind fun fields _ => .pure (.record false n hbasic fields)
        · exact .bind fun _ _ => .bind fun _ _ => .bind fun fields _ =>
            .pure (.record false n hbasic fields)
        · exact .of_stops (by simp)
      · exact .of_stops (by simp)

theorem fieldInfoList_describes (fs : List (String × TypeExpr)) :
    (fieldInfoList (memberTrees fs)).Ensures a fun infos =>
      List.Forall₂ FieldDescribes (keptFields fs) infos := by
  induction fs with
  | nil => exact .pure .nil
  | cons f fs ih =>
    obtain ⟨name, type⟩ := f
    refine .step_bind rfl (.bind fun info hinfo => .bind fun infos hinfos => .pure ?_)
    have hinfos := ih infos hinfos
    cases type with
    | named type =>
      have hkept : (fieldInfo (.text name) (.typeName (.text type) .null)).Ensures a fun info =>
          info = some (.dict [("field_name", .text name), ("field_type", .text type)]) := by
        refine .ite (fun _ => .bind fun known _ => .ite (fun _ => ?_) fun _ => ?_) fun _ => ?_
        · exact .of_stops (by simp)
        · exact .pure rfl
        · exact .pure rfl
      obtain rfl := hkept info hinfo
      exact .cons (.named name type) hinfos
    | array type =>
      obtain ⟨described, hdescribed, hinfo⟩ := bind_eq_ok.1 hinfo
      obtain rfl := pure_eq_ok.1 hinfo
      exact .cons (.array name (arrayInfo_describes (by decide) type _ _ hdescribed)) hinfos
    | record fields | omitted =>
      obtain rfl := pure_eq_ok.1 hinfo
      exact hinfos

/-- Parameters are kept by name and type, and the last array is described. -/
theorem parameterTypes_ensures : ∀ (ps : List Parameter) {last : Option ArrayType}
    {array : Option Tree}, Option.Rel ArrayType.Describes last array →
    (parameterTypes (ps.map Parameter.toTree) array).Ensures a fun typed =>
      typed.1 = ps.map Parameter.pair ∧
        Option.Rel ArrayType.Describes (lastArray? last ps) typed.2
  | [], _, _, h => .pure ⟨rfl, h⟩
  | ⟨name, type, mode⟩ :: ps, last, array, h => by
    -- What comes after the type is the same whether it is an array type or not.
    have hrest : ∀ {kept : Tree} {last' : Option ArrayType} {array' : Option Tree},
        kept = Parameter.keptType ⟨name, type, mode⟩ →
        Option.Rel ArrayType.Describes last' array' →
        Check.Ensures (do
          let shown ← (Parameter.toTree ⟨name, type, mode⟩).part "identifier"
          let typed ← parameterTypes (ps.map Parameter.toTree) array'
          return ((shown, kept) :: typed.1, typed.2)) a fun typed =>
            typed.1 = (⟨name, type, mode⟩ :: ps).map Parameter.pair ∧
              Option.Rel ArrayType.Describes (lastArray? last' ps) typed.2 := by
      rintro kept last' array' rfl h
      refine .step_bind rfl (.bind fun typed htyped => .pure ?_)
      have htyped := parameterTypes_ensures ps h typed htyped
      exact ⟨congrArg _ htyped.1, htyped.2⟩
    refine .step_bind rfl ?_
    cases type with
    | array type =>
      refine .bind fun described hdescribed => hrest rfl (.some ?_)
      exact arrayInfo_describes (by decide) type _ described hdescribed
    | named n | record fields | omitted => exact hrest rfl h

theorem routineParameters_ensures (ps : List Parameter) :
    (routineParameters (.list (ps.map Parameter.toTree))).Ensures a fun typed =>
      typed.1 = ps.map Parameter.pair ∧
        Option.Rel ArrayType.Describes (lastArray? none ps) typed.2 := by
  cases ps with
  | nil => exact .pure ⟨rfl, .none⟩
  | cons p ps =>
    exact .step_bind (x := (p :: ps).map Parameter.toTree) rfl
      (parameterTypes_ensures (p :: ps) .none)

end Made

/-! ### Declarations that are accepted -/

section Accepted

variable {s s' : Analysis} {env : Env} {k : Nat} {n : String} {m : Meaning} {info : Tree} {u : Unit}
  {type : DeclaredType} {ps : List Parameter}

/-- A name that is declared becomes visible. -/
theorem declareIn_fits (henv : env.Fits s.scopes k)
    (h : Runs (declareIn k (.text n) info) s u s') (hm : m.Describes n info) :
    Env.Fits s'.scopes ((n, m) :: env) k :=
  henv.grow (declareIn_grows henv.lt_size h) (.cons ⟨rfl, hm⟩ .nil)

section

variable (henv : s.Sees env)

include henv

theorem declare_fits (h : Runs (declare (.text n) info) s u s') (hm : m.Describes n info) :
    s'.Sees ((n, m) :: env) := by
  rw [Analysis.Sees, (declare_keeps h).1]
  exact declareIn_fits henv (runs_get_bind.1 h) hm

theorem declareConstant_fits {value : Option ConstValue}
    (h : Runs (declareConstant (.text n)
      (.tuple [type.toTree, Tree.ofOption (value.map ConstValue.toTree)])) s u s') :
    s'.Sees ((n, type.constant env) :: env) := by
  obtain ⟨info, hinfo, h⟩ := runs_check_bind.1 h
  exact declare_fits henv h (constantInfo_describes henv type value n info hinfo)

theorem declareVariable_fits {t initial filled : Tree} (htype : type.StoredAs t)
    (h : Runs (declareVariable (.text n) t initial) s filled s') :
    type.StoredAs filled ∧ s'.Sees ((n, .value type) :: env) := by
  obtain ⟨filled', hfilled, h⟩ := runs_check_bind.1 h
  obtain ⟨info, hinfo, h⟩ := runs_check_bind.1 h
  obtain ⟨_, hdeclare, rfl⟩ := runs_bind_pure.1 h
  have hkept := filledType_storedAs htype _ hfilled
  exact ⟨hkept, declare_fits henv hdeclare (variableInfo_describes hkept initial n info hinfo)⟩

theorem declareType_fits {type : TypeExpr} {before : Option DeclaredType}
    (h : Runs (declareType (.text n) type.toTree) s u s') :
    s'.Sees ((Decl.type n type).extend env before) := by
  cases type with
  | named _ | omitted =>
    obtain ⟨-, rfl⟩ := runs_pure.1 h
    exact henv
  | array type =>
    obtain ⟨info, hinfo, h⟩ := runs_check_bind.1 h
    exact declare_fits henv h (.arrayType n (arrayInfo_describes (by decide) type _ info hinfo))
  | record fields =>
    obtain ⟨infos, hinfos, h⟩ := runs_check_bind.1 h
    obtain ⟨trees, htrees, hinfos⟩ := bind_eq_ok.1 hinfos
    obtain rfl : memberTrees fields = trees := Except.ok.inj (fault_eq_ok.1 htrees)
    exact declare_fits henv h (.recordType n (fieldInfoList_describes fields infos hinfos))

end

/-- The entry of a parameter in the scope of its routine. -/
theorem declareLocals_cons_runs {last : Option ArrayType} {array : Option Tree}
    (harray : Option.Rel ArrayType.Describes last array) {p : Parameter}
    (h : Runs (declareLocals k array ((p :: ps).map Parameter.pair)) s u s') :
    ∃ info s₁, (p.meaning last).Describes p.name info ∧
      Runs (declareIn k (.text p.name) info) s () s₁ ∧
      Runs (declareLocals k array (ps.map Parameter.pair)) s₁ u s' := by
  obtain ⟨name, type, mode⟩ := p
  cases type with
  | array type =>
    cases harray with
    | none =>
      obtain ⟨_, _, h, -⟩ := runs_bind.1 h
      exact absurd h not_runs_throw
    | some hknown =>
      obtain ⟨_, s₁, hfirst, hrest⟩ := runs_bind.1 h
      exact ⟨_, s₁, .arrayParameter name type hknown, hfirst, hrest⟩
  | named n | record fields | omitted =>
    obtain ⟨_, s₁, hfirst, hrest⟩ := runs_bind.1 h
    exact ⟨_, s₁, .parameter name nofun, hfirst, hrest⟩

/-- In the scope of a routine its parameters become visible. -/
theorem declareLocals_fits {last : Option ArrayType} {array : Option Tree}
    (harray : Option.Rel ArrayType.Describes last array) : ∀ (ps : List Parameter)
    {s s' : Analysis} {env : Env}, env.Fits s.scopes k →
    Runs (declareLocals k array (ps.map Parameter.pair)) s u s' →
    Env.Fits s'.scopes ((parameterMeanings last ps).reverse ++ env) k
  | [], s, s', env, henv, h => by
    obtain ⟨-, rfl⟩ := runs_pure.1 h
    exact henv
  | p :: ps, s, s', env, henv, h => by
    obtain ⟨info, s₁, hp, hfirst, hrest⟩ := declareLocals_cons_runs harray h
    have hall := declareLocals_fits harray ps (declareIn_fits henv hfirst hp) hrest
    simpa [parameterMeanings] using hall

theorem openRoutine_fits (henv : s.Sees env)
    {kind : String} {result : TypeExpr} {routine : OpenRoutine}
    (h : Runs (openRoutine (.text kind) (.text n) (.list (ps.map Parameter.toTree)) result.toTree) s
      routine s') : routine.parameters = ps.map Parameter.pair ∧
    s'.Sees (routineEnv env kind n ps result) := by
  obtain ⟨_, -, h⟩ := runs_check_bind.1 h
  obtain ⟨⟨typed, array⟩, htyped, h⟩ := runs_check_bind.1 h
  obtain ⟨rfl, hlast⟩ := routineParameters_ensures ps _ htyped
  obtain ⟨_, s₁, hdeclare, h⟩ := runs_bind.1 h
  have hhome := declare_fits henv hdeclare (.routine kind n ps result .null .null)
  -- The new scope is opened before it is entered, so that the parameters are declared from outside.
  have h := runs_modify_bind.1 (runs_get_bind.1 h)
  obtain ⟨_, s₂, (hlocals : Runs (σ := Analysis) _ { s₁ with
    scopes := (s₁.scopes.openIn (some s₁.scopes.current) []).2 } _ s₂), h⟩ := runs_bind.1 h
  have h := runs_modify_bind.1 h
  obtain ⟨rfl, rfl⟩ := runs_pure.1 h
  have hopened : Env.Fits (s₁.scopes.openIn (some s₁.scopes.current) []).2 _ s₁.scopes.all.size :=
    hhome.enter.congr (Nat.le_refl _) fun _ _ => rfl
  have hall := declareLocals_fits hlast ps hopened hlocals
  exact ⟨rfl, hall.congr (Nat.le_refl _) fun _ _ => rfl⟩

end Accepted

/-- The statements are checked with success where the names are visible. -/
def Accepted (env : Env) (ss : List Stmt) : Prop :=
  ∃ a codes, env.Fits a.scopes a.scopes.current ∧
    Checking.checkCompound (compoundTree ss) a = .ok codes

theorem finishBlock_accepted {s s' : Analysis} {env : Env} (henv : s.Sees env) {ss : List Stmt}
    {code : Tree} (h : Runs (finishBlock (compoundTree ss)) s code s') : Accepted env ss := by
  have h := runs_modify_bind.1 h
  obtain ⟨codes, hcodes, -⟩ := runs_check_bind.1 h
  exact ⟨_, codes, henv.enter, hcodes⟩

/-- Before a program nothing is visible. -/
theorem Analysis.start_fits : Analysis.start.Sees [] :=
  .root Nat.zero_lt_one rfl List.nodup_nil .nil

mutual

/-- The statements of all bodies in a block are accepted where the names that are declared before
them are visible. -/
theorem analyzeBlock_eachBody : ∀ (b : Block) {s s' : Analysis} {code : Tree} {env : Env},
    s.Sees env → Runs (analyzeBlock b.toTree) s code s' →
    b.EachBody Accepted env
  | .mk [] ss, s, s', code, env, henv, h => ⟨trivial, finishBlock_accepted henv h⟩
  | .mk (d :: ds) ss, s, s', code, env, henv, h => by
    obtain ⟨_, s₁, hdeclare, h⟩ := runs_bind.1 h
    obtain ⟨hbodies, henv'⟩ := declareList_eachBody (d :: ds) henv .none hdeclare
    exact ⟨hbodies, finishBlock_accepted henv' h⟩

theorem declareItem_eachBody : ∀ (d : Decl) {s s' : Analysis} {before filled : Option Tree}
    {env : Env} {type : Option DeclaredType}, s.Sees env →
    Option.Rel DeclaredType.StoredAs type before → Runs (declareItem before d.toTree) s filled s' →
    d.EachBody Accepted env ∧ s'.Sees (d.extend env type) ∧
      Option.Rel DeclaredType.StoredAs (d.type? type) filled
  | .const n type value, s, s', before, filled, env, last, henv, hbefore, h => by
    obtain ⟨_, hdeclare, rfl⟩ := runs_bind_pure.1 h
    exact ⟨trivial, declareConstant_fits henv hdeclare, .none⟩
  | .type n type, s, s', before, filled, env, last, henv, hbefore, h => by
    obtain ⟨_, hdeclare, rfl⟩ := runs_bind_pure.1 h
    exact ⟨trivial, declareType_fits henv hdeclare, .none⟩
  | .var n type initial sharesType, s, s', before, filled, env, last, henv, hbefore, h => by
    obtain ⟨filled, hdeclare, rfl⟩ := runs_bind_pure.1 h
    have htype : (sharedType last type sharesType).StoredAs
        (if sharesType then before.getD type.toTree else type.toTree) := by
      unfold sharedType
      split
      · cases hbefore with
        | none => exact type.storedAs
        | some hkept => exact hkept
      · exact type.storedAs
    obtain ⟨hkept, henv'⟩ := declareVariable_fits henv htype hdeclare
    exact ⟨trivial, henv', .some hkept⟩
  | .routine kind n ps body result, s, s', before, filled, env, last, henv, hbefore, h => by
    obtain ⟨routine, s₁, hopen, h⟩ := runs_bind.1 h
    obtain ⟨code, s₂, hbody, h⟩ := runs_bind.1 h
    obtain ⟨info, hclose, rfl⟩ := runs_bind_pure.1 h
    obtain ⟨hparameters, hinside⟩ := openRoutine_fits henv hopen
    obtain ⟨key, hkey, rfl, hcurrent, hgrows⟩ :=
      closeRoutine_grows henv.lt_size hopen hbody hclose
    obtain rfl : n = key := Except.ok.inj hkey
    refine ⟨analyzeBlock_eachBody body hinside hbody, ?_, .none⟩
    rw [hparameters] at hgrows
    rw [Analysis.Sees, hcurrent]
    exact henv.grow hgrows (.cons ⟨rfl, .routine kind n ps result code _⟩ .nil)

theorem declareList_eachBody : ∀ (ds : List Decl) {s s' : Analysis} {before : Option Tree}
    {env : Env} {type : Option DeclaredType} {u : Unit}, s.Sees env →
    Option.Rel DeclaredType.StoredAs type before →
    Runs (declareList before (declTrees ds)) s u s' →
    declsEachBody Accepted env type ds ∧ s'.Sees (declsEnv env type ds)
  | [], s, s', before, env, type, _, henv, hbefore, h => by
    obtain ⟨-, rfl⟩ := runs_pure.1 h
    exact ⟨trivial, henv⟩
  | d :: ds, s, s', before, env, type, _, henv, hbefore, h => by
    obtain ⟨filled, s₁, hfirst, h⟩ := runs_bind.1 h
    obtain ⟨hd, henv', hlast⟩ := declareItem_eachBody d henv hbefore hfirst
    obtain ⟨hds, hall⟩ := declareList_eachBody ds henv' hlast h
    exact ⟨⟨hd, hds⟩, hall⟩

end

end MiniPascal
