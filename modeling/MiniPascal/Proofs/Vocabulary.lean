import MiniPascal.Proofs.Spelling

/-!
# Programs That Keep to a Vocabulary

What is known about the texts in a program: which ones may be names, values of literals and
operators. What is known about the statements of its bodies is a matter of its own, so that
something can be said about the names of a program without saying anything about its statements.

* `Block.within_any`: every block keeps to the vocabulary of all texts.
-/

namespace MiniPascal

/-- The texts that may stand for names, literals and operators. -/
structure Vocabulary where
  /-- The texts that may be names. -/
  name : String → Prop
  /-- The texts that may be values of literals. -/
  literal : String → Prop
  /-- The texts that may be operators. -/
  operator : String → Prop
  /-- The words that routines may be declared with. -/
  word : String → Prop
  basic : ∀ b : BasicType, name b.name

def Vocabulary.any : Vocabulary :=
  ⟨fun _ => True, fun _ => True, fun _ => True, fun _ => True, fun _ => trivial⟩

def TokenKind.operators : List TokenKind := Grammar.joiningKinds ++ Grammar.comparingKinds

def TokenKind.routines : List TokenKind := [.kwProcedure, .kwFunction]

/-- The token keeps to the vocabulary: its text is one that a token of its kind may have. -/
structure Vocabulary.Admits (V : Vocabulary) (t : Token) : Prop where
  name : t.kind = .identifier → V.name t.value
  literal : t.kind ∈ [.string, .char] → V.literal t.value
  operator : t.kind ∈ TokenKind.operators → V.operator t.value
  word : t.kind ∈ TokenKind.routines → V.word t.value

section Within

variable (V : Vocabulary)

mutual

/-- The texts in an expression belong to the vocabulary, and it has the shape of an expression that
is parsed from a text. Only a factor is negated or follows an operator, and a designator is a name
with indices of which one field may be taken or which may be called. -/
def Expr.Within : Expr → Prop
  | .operand value => value.Within
  | .compare left operator right => left.Within ∧ V.operator operator ∧ right.Within

def Operand.Within : Operand → Prop
  | .number _ => True
  | .literal value => V.literal value
  | .truth _ => True
  | .designator place => place.IsValue ∧ place.Within
  | .group inner => inner.Within
  | .negation inner => inner.IsFactor ∧ inner.Within
  | .binary left operator right => left.Within ∧ V.operator operator ∧ right.IsFactor ∧ right.Within

def Designator.Within : Designator → Prop
  | .name n => V.name n
  | .element base index => base.Within ∧ index.Within
  | .field base n => base.Within ∧ V.name n
  | .call base arguments => base.Within ∧ exprsWithin arguments

def exprsWithin : List Expr → Prop
  | [] => True
  | e :: es => e.Within ∧ exprsWithin es

end

mutual

/-- The texts in a statement belong to the vocabulary, and what is assigned to is a name with
indices and fields. -/
def Stmt.Within : Stmt → Prop
  | .compound statements => stmtsWithin statements
  | .assign target value => target.Within V ∧ target.IsTarget ∧ value.Within V
  | .ifThen condition thenBranch => condition.Within V ∧ thenBranch.Within
  | .ifElse condition thenBranch elseBranch =>
    condition.Within V ∧ thenBranch.Within ∧ elseBranch.Within
  | .whileLoop condition body => condition.Within V ∧ body.Within
  | .forLoop n start _ stop body => V.name n ∧ start.Within V ∧ stop.Within V ∧ body.Within
  | .call n arguments => V.name n ∧ exprsWithin V arguments

def stmtsWithin : List Stmt → Prop
  | [] => True
  | s :: ss => s.Within ∧ stmtsWithin ss

end

mutual

def ConstValue.Within : ConstValue → Prop
  | .number _ => True
  | .literal value => V.literal value
  | .list values => constsWithin values
  | .record fields => fieldsWithin fields

def constsWithin : List ConstValue → Prop
  | [] => True
  | v :: vs => v.Within ∧ constsWithin vs

def fieldsWithin : List (String × ConstValue) → Prop
  | [] => True
  | (n, v) :: fs => V.name n ∧ v.Within ∧ fieldsWithin fs

end

def ArrayType.Within (type : ArrayType) : Prop :=
  V.name type.element ∧ ∀ values ∈ type.initial, constsWithin V values

def Vocabulary.typeName (n : String) : Prop := V.name n ∨ V.literal n

mutual

def TypeExpr.Within : TypeExpr → Prop
  | .named n => V.typeName n
  | .array type => type.Within V
  | .record fields => membersWithin fields
  | .omitted => True

def membersWithin : List (String × TypeExpr) → Prop
  | [] => True
  | (n, type) :: fs => V.name n ∧ type.Within ∧ membersWithin fs

end

def DeclaredType.Within : DeclaredType → Prop
  | .named n => V.typeName n
  | .array type => type.Within V

def Parameter.Within (p : Parameter) : Prop := V.name p.name ∧ p.type.Within V

variable (S : List Stmt → Prop)

mutual

def Decl.Within : Decl → Prop
  | .type n type => V.name n ∧ type.Within V
  | .const n type value => V.name n ∧ type.Within V ∧ ∀ v ∈ value, v.Within V
  | .var n type initial _ => V.name n ∧ type.Within V ∧ ∀ v ∈ initial, v.Within V
  | .routine word n parameters body _ =>
    V.word word ∧ V.name n ∧ (∀ p ∈ parameters, p.Within V) ∧ body.Within

def Block.Within : Block → Prop
  | .mk declarations statements => declsWithin declarations ∧ S statements

def declsWithin : List Decl → Prop
  | [] => True
  | d :: ds => d.Within ∧ declsWithin ds

end

end Within

section

variable {V : Vocabulary} {S : List Stmt → Prop}

theorem declsWithin_iff : ∀ {ds : List Decl}, declsWithin V S ds ↔ ∀ d ∈ ds, d.Within V S
  | [] => by simp [declsWithin]
  | d :: ds => by rw [declsWithin, List.forall_mem_cons, declsWithin_iff]

theorem membersWithin_append : ∀ {fs fs' : List (String × TypeExpr)},
    membersWithin V fs → membersWithin V fs' → membersWithin V (fs ++ fs')
  | [], _, _, h => h
  | (_, _) :: _, _, ⟨hn, htype, hfs⟩, h => ⟨hn, htype, membersWithin_append hfs h⟩

/-- Fields that share a type. -/
theorem membersWithin_map {type : TypeExpr} (htype : type.Within V) : ∀ {group : List String},
    (∀ n ∈ group, V.name n) → membersWithin V (group.map fun n => (n, type))
  | [], _ => trivial
  | n :: group, h => by
    rw [List.forall_mem_cons] at h
    exact ⟨h.1, htype, membersWithin_map htype h.2⟩

end

/-! ### All texts -/

mutual

theorem ConstValue.within_any : ∀ v : ConstValue, v.Within .any
  | .number _ | .literal _ => trivial
  | .list vs => constsWithin_any vs
  | .record fs => fieldsWithin_any fs

theorem constsWithin_any : ∀ vs : List ConstValue, constsWithin .any vs
  | [] => trivial
  | v :: vs => ⟨v.within_any, constsWithin_any vs⟩

theorem fieldsWithin_any : ∀ fs : List (String × ConstValue), fieldsWithin .any fs
  | [] => trivial
  | (_, v) :: fs => ⟨trivial, v.within_any, fieldsWithin_any fs⟩

end

theorem ArrayType.within_any (type : ArrayType) : type.Within .any :=
  ⟨trivial, fun values _ => constsWithin_any values⟩

mutual

theorem TypeExpr.within_any : ∀ type : TypeExpr, type.Within .any
  | .named _ => .inl trivial
  | .array type => type.within_any
  | .record fs => membersWithin_any fs
  | .omitted => trivial

theorem membersWithin_any : ∀ fs : List (String × TypeExpr), membersWithin .any fs
  | [] => trivial
  | (_, type) :: fs => ⟨trivial, type.within_any, membersWithin_any fs⟩

end

theorem DeclaredType.within_any : ∀ type : DeclaredType, type.Within .any
  | .named _ => .inl trivial
  | .array type => type.within_any

theorem Parameter.within_any (p : Parameter) : p.Within .any := ⟨trivial, p.type.within_any⟩

mutual

theorem Decl.within_any : ∀ d : Decl, d.Within .any fun _ => True
  | .type _ type => ⟨trivial, type.within_any⟩
  | .const _ type _ | .var _ type _ _ => ⟨trivial, type.within_any, fun v _ => v.within_any⟩
  | .routine _ _ _ body _ => ⟨trivial, trivial, fun p _ => p.within_any, body.within_any⟩

theorem Block.within_any : ∀ b : Block, b.Within .any fun _ => True
  | .mk ds _ => ⟨declsWithin_any ds, trivial⟩

theorem declsWithin_any : ∀ ds : List Decl, declsWithin .any (fun _ => True) ds
  | [] => trivial
  | d :: ds => ⟨d.within_any, declsWithin_any ds⟩

end

end MiniPascal
