import MiniPascal.Proofs.Analysis.Bodies
import MiniPascal.Proofs.Analysis.Static

/-!
# Regular Programs

An analysis refuses most programs that make no sense, but not all: it takes the shape of some trees
for granted, and breaks off with a fault where they have another one. Regular programs are those
that keep clear of that. Which ones they are can be told from a program alone, with the names that
are visible at each point.

* The bodies of loops and the branches of conditional statements are compound statements, and loops
  over a range count upward.
* Where the type of an expression is asked for, its first operand is declared, and the sides of a
  comparison are no chains of operands. An array gets no chain that starts with an array.
* Nothing but a name, a literal or a group is negated.
* Elements are elements of names, and calls are calls of names.
* Constants have known types, record types have new names and fields of known types that differ in
  their names, and the initial values of arrays of records are nested like the arrays.
-/

namespace MiniPascal

/-! ### Names that are visible -/

namespace Env

/-- Whether the type of a name is the word for arrays. -/
def isArray (env : Env) (n : String) : Bool :=
  (env.array? n).isSome ||
    match env.lookup n with
    | some (.parameter (.named "array")) => true
    | _ => false

/-- The fields of the record type of a name, if it is one. -/
def fields? (env : Env) (n : String) : Option (List (String × TypeExpr)) :=
  match env.lookup n with
  | some (.recordType fields) => some fields
  | _ => none

end Env

/-! ### Code -/

def Designator.isName : Designator → Bool
  | .name _ => true
  | _ => false

mutual

/-- Whether an expression can be written as code: elements are elements of names, and calls are
calls of names. -/
def Expr.isWritable : Expr → Bool
  | .operand value => value.isWritable
  | .compare left _ right => left.isWritable && right.isWritable

def Operand.isWritable : Operand → Bool
  | .designator (.name n) => !n.isEmpty
  | .designator place => place.isWritable
  | .group inner | .negation inner => inner.isWritable
  | .binary left _ right => left.isWritable && right.isWritable
  | _ => true

def Designator.isWritable : Designator → Bool
  | .name _ => true
  | .element base index => base.root?.isSome && base.isWritable && index.isWritable
  | .field base _ => base.isWritable
  | .call base arguments => base.isName && exprsAreWritable arguments

def exprsAreWritable : List Expr → Bool
  | [] => true
  | e :: es => e.isWritable && exprsAreWritable es

end

mutual

def Stmt.isWritable : Stmt → Bool
  | .compound ss => stmtsAreWritable ss
  | .assign target value => target.isWritable && value.isWritable
  | .ifThen condition thenBranch => condition.isWritable && thenBranch.isWritable
  | .ifElse condition thenBranch elseBranch =>
    condition.isWritable && (thenBranch.isWritable && elseBranch.isWritable)
  | .whileLoop condition body => condition.isWritable && body.isWritable
  | .forLoop _ start direction stop body =>
    start.isWritable && (Text.toLower direction == "to") && (stop.isWritable && body.isWritable)
  | .call _ arguments => exprsAreWritable arguments

def stmtsAreWritable : List Stmt → Bool
  | [] => true
  | st :: ss => st.isWritable && stmtsAreWritable ss

end

/-! ### Expressions -/

def Operand.isChain : Operand → Bool
  | .binary _ _ _ => true
  | _ => false

def Operand.isName : Operand → Bool
  | .designator place => place.isName
  | _ => false

/-- Whether the type of an operand can be asked for: its first operand, if it is a name, is
visible. -/
def Operand.isTypable (env : Env) : Operand → Bool
  | .designator (.name n) => env.has n
  | .binary left _ _ => left.isTypable env
  | _ => true

def Expr.isTypable (env : Env) : Expr → Bool
  | .operand value => value.isTypable env
  | .compare left _ right =>
    left.isTypable env && !left.isChain && (right.isTypable env && !right.isChain)

mutual

def Expr.isCheckable (env : Env) : Expr → Bool
  | .operand value => value.isCheckable env
  | .compare left operator right =>
    (Expr.compare left operator right).isTypable env &&
      (left.isCheckable env && right.isCheckable env)

def Operand.isCheckable (env : Env) : Operand → Bool
  | .designator (.call _ arguments) => arguments.all (·.isTypable env)
  | .designator place => place.isCheckable env
  | .group inner => inner.isCheckable env
  | .negation inner => inner.isFactor && inner.isCheckable env
  | .binary left _ right => left.isCheckable env && right.isCheckable env
  | _ => true

def Designator.isCheckable (env : Env) : Designator → Bool
  | .element base index => base.isCheckable env && index.isCheckable env
  | .field base _ => base.isCheckable env
  | _ => true

end

def Expr.first : Expr → Operand
  | .operand value => value
  | .compare left _ _ => left

def Operand.isArray (env : Env) : Operand → Bool
  | .designator (.name n) => env.isArray n
  | .designator (.element base _) =>
    (base.root?.bind env.array?).any fun type => type.element == "array"
  | .binary left _ _ => left.isArray env
  | _ => false

/-- Whether a value can be assigned: where its type is asked for, that can be done, and what is
assigned to an array and taken for one is a name. -/
def assignmentIsRegular (env : Env) (value : Expr) : Designator → Bool
  | .name n =>
    !env.isArray n || value.isTypable env && (value.first.isName || !value.first.isArray env)
  | .element _ _ => value.isTypable env
  | _ => true

/-- Whether an expression can be checked against a type. -/
def Expr.isTested (env : Env) (e : Expr) : Bool := e.isTypable env && e.isCheckable env

/-! ### Statements -/

mutual

/-- Whether a statement can be checked. A compound statement among others is passed over. -/
def Stmt.isCheckable (env : Env) : Stmt → Bool
  | .compound _ => true
  | .assign target value =>
    target.isCheckable env && value.isCheckable env && assignmentIsRegular env value target
  | .ifThen condition (.compound ss) => condition.isTested env && stmtsAreCheckable env ss
  | .ifElse condition (.compound ss) (.compound ss') =>
    condition.isTested env && (stmtsAreCheckable env ss && stmtsAreCheckable env ss')
  | .whileLoop condition (.compound ss) => condition.isTested env && stmtsAreCheckable env ss
  | .forLoop _ start _ stop (.compound ss) =>
    start.isTested env && (stop.isTested env && stmtsAreCheckable env ss)
  | .call _ arguments => arguments.all (·.isTypable env)
  | _ => false

def stmtsAreCheckable (env : Env) : List Stmt → Bool
  | [] => true
  | st :: ss => st.isCheckable env && stmtsAreCheckable env ss

end

/-- Whether the statements of a body can be checked and written as code. The compound ones are
passed over. -/
def bodyIsRegular (env : Env) (ss : List Stmt) : Bool :=
  ss.all fun st => st.isCompound || st.isCheckable env && st.isWritable

/-! ### Initial values -/

/-- Whether a value of the given name fits the fields of a record type: `isNested` tells whether it
is nested like an array of records with the given fields and number of dimensions. -/
def fieldFits (env : Env) (fields : List (String × TypeExpr)) (name : String)
    (isNested : List (String × TypeExpr) → Nat → Bool) : Bool :=
  fields.all fun f =>
    match f with
    | (n, .array type) =>
      n != name || (env.fields? type.element).all fun inner => isNested inner type.dimensions.length
    | _ => true

mutual

/-- Whether a value is nested like an array of records with the given fields that has the given
number of dimensions: what stands for its elements are records that fit their type, or no records
at all. -/
def Tree.isNested (env : Env) (fields : List (String × TypeExpr)) : Nat → Tree → Bool
  | levels, .list values => areNested env fields (levels - 1) values
  | 0, .recordInit (.list pairs) => pairsFit env fields pairs
  | 0, .recordInit _ => false
  | 0, .dict entries => entriesFit env fields entries
  | 0, _ => true
  | _ + 1, .text _ => true
  | _ + 1, _ => false
termination_by structural _ t => t

def areNested (env : Env) (fields : List (String × TypeExpr)) (levels : Nat) : List Tree → Bool
  | [] => true
  | value :: rest => value.isNested env fields levels && areNested env fields levels rest
termination_by structural ts => ts

def pairsFit (env : Env) (fields : List (String × TypeExpr)) : List Tree → Bool
  | [] => true
  | .tuple [.text name, value] :: rest =>
    fieldFits env fields name (fun inner levels => value.isNested env inner levels) &&
      pairsFit env fields rest
  | _ :: _ => false
termination_by structural ts => ts

def entriesFit (env : Env) (fields : List (String × TypeExpr)) : List (String × Tree) → Bool
  | [] => true
  | (name, value) :: rest =>
    fieldFits env fields name (fun inner levels => value.isNested env inner levels) &&
      entriesFit env fields rest
termination_by structural es => es

end

/-- Whether a value of a type, or of an array of it, is nested as it has to be, if the type is a
record type. -/
def Env.fits (env : Env) (type : String) (levels : Nat) (value : Tree) : Bool :=
  match env.fields? type with
  | some fields => value.isNested env fields levels
  | none => true

/-- Whether the initial values of an array, if there are any, are nested like it. -/
def ArrayType.isRegular (env : Env) (type : ArrayType) : Bool :=
  type.initial.all fun values =>
    env.fits type.element type.dimensions.length (.list (constTrees values))

/-! ### Declarations -/

/-- Whether a type that is an array has initial values that are nested like it. -/
def TypeExpr.isRegular (env : Env) : TypeExpr → Bool
  | .array type => type.isRegular env
  | _ => true

/-- Whether the type of a field is known, if it is an array. -/
def TypeExpr.isKnownField (env : Env) : TypeExpr → Bool
  | .array type => env.knowsType type.element
  | _ => true

def DeclaredType.isRegular (env : Env) (value : Option ConstValue) : DeclaredType → Bool
  | .named n => value.all fun v => env.fits n 0 v.toTree
  | .array type => type.isRegular env

mutual

/-- Whether a block can be analysed where some names are visible. -/
def Block.isRegular (env : Env) : Block → Bool
  | .mk ds ss => declsAreRegular env none ds && bodyIsRegular (declsEnv env none ds) ss

def Decl.isRegular (env : Env) (before : Option DeclaredType) : Decl → Bool
  | .type n (.record fields) =>
    !env.has n && decide (fields.map Prod.fst).Nodup &&
      fields.all fun f => f.2.isRegular env && f.2.isKnownField env
  | .type _ declared => declared.isRegular env
  | .const _ (.named n) value => env.knowsType n && (DeclaredType.named n).isRegular env value
  | .const _ declared value => declared.isRegular env value
  | .var _ declared initial sharesType =>
    (sharedType before declared sharesType).isRegular env initial
  | .routine kind n ps body result =>
    ps.all (·.type.isRegular env) && body.isRegular (routineEnv env kind n ps result)

def declsAreRegular (env : Env) (before : Option DeclaredType) : List Decl → Bool
  | [] => true
  | d :: ds => d.isRegular env before && declsAreRegular (d.extend env before) (d.type? before) ds

end

def Program.isRegular (p : Program) : Bool := p.block.isRegular []

end MiniPascal
