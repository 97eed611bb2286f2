import MiniPascal.Proofs.Analysis.Visible

/-!
# Static Types

The static types of places and values, as the declarations of a program give them.
-/

namespace MiniPascal

open Check Checking Typing

/-! ### Static types -/

/-- The types that declarations give to places and values. -/
inductive StaticType where
  | named (name : String)
  | array (dimensions : List (Nat × Nat)) (element : String)
  deriving DecidableEq

def ArrayType.static (type : ArrayType) : StaticType := .array type.dimensions type.element

/-- The static type that a type stands for, if it is a name or an array type. -/
def TypeExpr.static? : TypeExpr → Option StaticType
  | .named n => some (.named n)
  | .array type => some type.static
  | _ => none

def DeclaredType.static : DeclaredType → StaticType
  | .named n => .named n
  | .array type => type.static

/-- The static type of what a name stands for, if it has one. -/
def Meaning.static? : Meaning → Option StaticType
  | .value type => some type.static
  | .parameter type => type.static?
  | .arrayParameter own _ => some own.static
  | _ => none

def Env.static? (env : Env) (n : String) : Option StaticType := (env.lookup n).bind Meaning.static?

def Env.field? (env : Env) (type field : String) : Option StaticType :=
  match env.lookup type with
  | some (.recordType fields) => ((keptFields fields).lookup field).bind TypeExpr.static?
  | _ => none

/-- The static type of the elements of an array that is accessed with the given number of
indices. -/
def Designator.elementAfter? (env : Env) (count : Nat) : Designator → Option StaticType
  | .name n =>
    match env.static? n with
    | some (.array dimensions type) =>
      if dimensions.length = count then some (.named type) else none
    | _ => none
  | .element base _ => base.elementAfter? env (count + 1)
  | _ => none

def Designator.static? (env : Env) : Designator → Option StaticType
  | .name n => env.static? n
  | .element base _ => base.elementAfter? env 1
  | .field base member =>
    match base.static? env with
    | some (.named type) => env.field? type member
    | _ => none
  | .call (.name n) _ =>
    match env.lookup n with
    | some (.routine _ _ result) => result.static?
    | _ => none
  | .call _ _ => none

mutual

/-- Whether an expression is of a static type. A comparison is a truth value. -/
def Expr.hasType (env : Env) (τ : StaticType) : Expr → Bool
  | .operand value => value.hasType env τ
  | .compare _ _ _ => τ == .named "boolean"

def Operand.hasType (env : Env) (τ : StaticType) : Operand → Bool
  | .number _ => τ == .named "integer"
  | .literal s => τ == .named "string" || (s.length == 1 && τ == .named "char")
  | .truth _ => τ == .named "boolean"
  | .designator place => place.static? env == some τ
  | .group inner | .negation inner => inner.hasType env τ
  | .binary left _ right => left.hasType env τ && right.hasType env τ

end

def isWellTyped (env : Env) (target : Designator) (value : Expr) : Bool :=
  match target.static? env with
  | some τ => value.hasType env τ
  | none => false

/-- Whether a parameter at which a designator starts, if it is an array, is taken to have its own
type. -/
def Designator.isFaithful (env : Env) : Designator → Bool
  | .name n =>
    match env.lookup n with
    | some (.arrayParameter own known) => own.static == known.static
    | _ => true
  | .element base _ | .field base _ => base.isFaithful env
  | .call _ _ => true

/-- Whether the static type of a designator is a name, and an analysis knows it. -/
def Designator.isKnown (env : Env) (place : Designator) : Bool :=
  ((place.static? env) matches some (.named _)) && place.isFaithful env

/-- Whether an operand is a name, a literal, a group or the negation of one. -/
def Operand.isFactor : Operand → Bool
  | .designator (.name _) => true
  | .designator _ => false
  | .binary _ _ _ => false
  | _ => true

def isBasic (n : String) : Bool := (BasicType.ofName? n).isSome

/-- Whether a name is a word that tables use for something else where the name of a type could
stand. -/
def isMark (n : String) : Bool := n == "" || n == "None" || n == "array" || n == "record"

theorem isBasic_name (b : BasicType) : isBasic b.name = true := by
  cases b <;> decide

theorem isMark_name (b : BasicType) : isMark b.name = false := by
  cases b <;> decide

/-! ### What is known about names -/

def Meaning.array? : Meaning → Option ArrayType
  | .value (.array type) | .arrayType type => some type
  | .arrayParameter _ known => some known
  | _ => none

def Env.array? (env : Env) (n : String) : Option ArrayType := (env.lookup n).bind Meaning.array?

def StaticType.word : StaticType → String
  | .named n => n
  | .array _ _ => "array"

theorem Tree.same_text {s t : String} : (Tree.text s).same (.text t) = true ↔ s = t := by
  rw [Tree.same]
  exact beq_iff_eq

theorem Tree.eq_of_same_text {s : String} {t : Tree} (h : (Tree.text s).same t = true) :
    t = .text s := by
  cases t with
  | text s' => rw [Tree.same_text.1 h]
  | _ => simp [Tree.same] at h

theorem Tree.not_same_null {s : String} : ¬ Tree.null.same (.text s) = true := by
  simp [Tree.same]

section Known

variable {a : Analysis} {env : Env} {n : String} {m : Meaning}

theorem flatAccess_ensures {access : Tree} (hbase : access.arrayBase = .text n) :
    (flatAccess access).Ensures a fun flat => flat = (n, access.accessIndices) := by
  intro flat hflat
  unfold flatAccess at hflat
  rw [hbase] at hflat
  exact (pure_eq_ok.1 hflat).symm

/-- The name at which element accesses start. -/
def Designator.root? : Designator → Option String
  | .name n => some n
  | .element base _ => base.root?
  | _ => none

theorem Designator.root?_of_arrayBase : ∀ {d : Designator} {n : String},
    d.toTree.arrayBase = .text n → d.root? = some n
  | .name _, _, h => congrArg some (Tree.text.inj h)
  | .element base _, _, h => Designator.root?_of_arrayBase (d := base) h
  | .field _ _, _, h | .call _ _, _, h => absurd h nofun

theorem Designator.arrayBase_toTree : ∀ {d : Designator} {n : String}, d.root? = some n →
    d.toTree.arrayBase = .text n
  | .name _, _, h => by
    obtain rfl := Option.some.inj h
    rfl
  | .element base _, _, h => Designator.arrayBase_toTree (d := base) h
  | .field _ _, _, h | .call _ _, _, h => absurd h nofun

/-- An element that has a static type is one of an array of that element type. -/
theorem Designator.root?_of_elementAfter? : ∀ {d : Designator} {count : Nat} {τ : StaticType},
    d.elementAfter? env count = some τ → ∃ n dimensions type, d.root? = some n ∧
      env.static? n = some (.array dimensions type) ∧ τ = .named type
  | .name n, count, τ, h => by
    unfold Designator.elementAfter? at h
    split at h
    next dimensions type hn =>
      split at h
      · exact ⟨n, dimensions, type, rfl, hn, (Option.some.inj h).symm⟩
      · exact absurd h nofun
    next => exact absurd h nofun
  | .element base _, _, _, h => Designator.root?_of_elementAfter? (d := base) h
  | .field _ _, _, _, h | .call _ _, _, _, h => absurd h nofun

theorem Designator.isFaithful_root : ∀ {d : Designator} {n : String}, d.root? = some n →
    d.isFaithful env = true → (Designator.name n).isFaithful env = true
  | .name _, _, h, hd => Option.some.inj h ▸ hd
  | .element base _, _, h, hd => Designator.isFaithful_root (d := base) h hd
  | .field _ _, _, h, _ | .call _ _, _, h, _ => absurd h nofun

theorem Meaning.array?_static (hm : env.lookup n = some m) {type : ArrayType}
    (htype : m.array? = some type) {τ : StaticType} (hstatic : env.static? n = some τ)
    (hfaithful : (Designator.name n).isFaithful env = true) : τ = type.static := by
  rw [Env.static?, hm, Option.bind_some] at hstatic
  rw [Designator.isFaithful, hm] at hfaithful
  cases m with
  | value declared =>
    cases declared with
    | named _ => exact absurd htype nofun
    | array declared =>
      obtain rfl := Option.some.inj htype
      exact (Option.some.inj hstatic).symm
  | arrayParameter own known =>
    obtain rfl := Option.some.inj htype
    exact (Option.some.inj hstatic).symm.trans (beq_iff_eq.1 hfaithful)
  | arrayType declared => exact absurd hstatic nofun
  | _ => exact absurd htype nofun

theorem checkFieldAccess_element (expected field : Tree) (base : Designator) (index : Expr) :
    checkFieldAccess expected field (Designator.element base index).toTree = (do
      let record := (Designator.element base index).toTree
      let dimensions ← accessDimensions record
      let (rest, position) ← checkIndices dimensions 0 base.toTree
      let _ ← checkBounds rest position
        (indexValue index.toTree (checkExpression (.text "integer") index.toTree))
      finishFieldAccess expected field record (← elementField record field)) := by
  cases index <;> rfl

theorem typeOf_operand_eq_ok {o : Operand} {found : ValueType}
    (h : typeOf false (Expr.operand o).toTree a = .ok found) (rest : List Tree) :
    ∃ t, found = .known t ∧ chainType (.list (o.toTree :: rest)) a = .ok t := by
  have hknown : ∀ {c : Check Tree}, (do return .known (← c) : Check ValueType) a = .ok found →
      ∃ t, found = .known t ∧ c a = .ok t := by
    intro c h
    obtain ⟨t, ht, h⟩ := bind_eq_ok.1 h
    exact ⟨t, (pure_eq_ok.1 h).symm, ht⟩
  cases o with
  | designator place =>
    cases place with
    | name n | element base index => exact hknown h
    | field base f | call base arguments => exact ⟨.null, (pure_eq_ok.1 h).symm, rfl⟩
  | _ => exact hknown h

end Known

end MiniPascal
