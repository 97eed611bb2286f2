import MiniPascal.Tree

/-!
# Programs

The programs of the language: expressions, statements, types and declarations as the grammar forms
them. `toTree` gives each of them as a tree for the later stages.

Operators and the direction of a loop keep the text they were written with. Operators of one operand
level are grouped from the left, whatever they are.
-/

namespace MiniPascal

mutual

/-- An expression: an operand, or a comparison of two. -/
inductive Expr where
  | operand (value : Operand)
  | compare (left : Operand) (operator : String) (right : Operand)

inductive Operand where
  | number (value : Nat)
  /-- A string or character literal. -/
  | literal (value : String)
  | truth (value : Bool)
  | designator (place : Designator)
  /-- An expression in parentheses. -/
  | group (inner : Expr)
  | negation (inner : Operand)
  | binary (left : Operand) (operator : String) (right : Operand)

inductive Designator where
  | name (name : String)
  | element (base : Designator) (index : Expr)
  | field (base : Designator) (name : String)
  | call (base : Designator) (arguments : List Expr)

end

/-- A statement. -/
inductive Stmt where
  | compound (statements : List Stmt)
  | assign (target : Designator) (value : Expr)
  | ifThen (condition : Expr) (thenBranch : Stmt)
  | ifElse (condition : Expr) (thenBranch elseBranch : Stmt)
  | whileLoop (condition : Expr) (body : Stmt)
  | forLoop (name : String) (start : Expr) (direction : String) (stop : Expr) (body : Stmt)
  | call (name : String) (arguments : List Expr)

/-- A value that a declaration gives. -/
inductive ConstValue where
  | number (value : Nat)
  | literal (value : String)
  | list (values : List ConstValue)
  | record (fields : List (String × ConstValue))

/-- The type of an array, which has at least one dimension. -/
structure ArrayType where
  /-- The lower and upper bound of the first dimension. -/
  first : Nat × Nat
  /-- The bounds of the other dimensions. -/
  others : List (Nat × Nat)
  /-- The name of the type of the elements. -/
  element : String
  /-- The values that the elements start with. -/
  initial : Option (List ConstValue)

/-- The lower and upper bound of each dimension. -/
def ArrayType.dimensions (a : ArrayType) : List (Nat × Nat) := a.first :: a.others

/-- A type. -/
inductive TypeExpr where
  | named (name : String)
  | array (type : ArrayType)
  | record (fields : List (String × TypeExpr))
  /-- No type is written where one could stand. -/
  | omitted

/-- The type in the declaration of a constant or a variable. -/
inductive DeclaredType where
  | named (name : String)
  | array (type : ArrayType)

/-- A parameter of a routine. -/
structure Parameter where
  /-- The name of the parameter. -/
  name : String
  /-- Its type. -/
  type : TypeExpr
  /-- The word that says how it is passed, if any. -/
  mode : Option String

mutual

/-- A declaration. -/
inductive Decl where
  | type (name : String) (type : TypeExpr)
  | const (name : String) (type : DeclaredType) (value : Option ConstValue)
  /-- A variable; `sharesType` says that it stands in one group with the one before it. -/
  | var (name : String) (type : DeclaredType) (initial : Option ConstValue) (sharesType : Bool)
  /-- A procedure or a function; `kind` is the word it was declared with. -/
  | routine (kind name : String) (parameters : List Parameter) (body : Block) (result : TypeExpr)

inductive Block where
  | mk (declarations : List Decl) (statements : List Stmt)

end

/-- A program. -/
structure Program where
  /-- The name of the program. -/
  name : String
  /-- What it declares and does. -/
  block : Block

/-! ### Programs as trees -/

mutual

def Expr.toTree : Expr → Tree
  | .operand value => .expression value.toTree .null .null
  | .compare left operator right => .expression left.toTree (.text operator) right.toTree

def Operand.toTree : Operand → Tree
  | .number value => .factor (.int value) .null .null (.bool false)
  | .literal value => .factor (.text value) .null .null (.bool false)
  | .truth value => .factor (.bool value) .null .null (.bool false)
  | .designator (.name name) => .factor .null (.text name) .null (.bool false)
  | .designator place => place.toTree
  | .group inner => .factor .null .null inner.toTree (.bool false)
  | .negation inner => .factor .null .null inner.toTree (.bool true)
  | .binary left operator right =>
    .simple (.list [left.toTree, .text operator, right.toTree]) (.text operator)

def Designator.toTree : Designator → Tree
  | .name name => .text name
  | .element base index => .arrayAccess base.toTree index.toTree
  | .field base name => .fieldAccess base.toTree (.text name)
  | .call base arguments => .functionCall base.toTree (.list (exprTrees arguments))

def exprTrees : List Expr → List Tree
  | [] => []
  | e :: es => e.toTree :: exprTrees es

end

mutual

def Stmt.toTree : Stmt → Tree
  | .compound statements => .compound (.list (stmtTrees statements))
  | .assign target value => .assign target.toTree value.toTree
  | .ifThen condition thenBranch => .ifElse condition.toTree thenBranch.toTree .null
  | .ifElse condition thenBranch elseBranch =>
    .ifElse condition.toTree thenBranch.toTree elseBranch.toTree
  | .whileLoop condition body => .whileLoop condition.toTree body.toTree
  | .forLoop name start direction stop body =>
    .forLoop (.text name) start.toTree (.text direction) stop.toTree body.toTree
  | .call name arguments => .procedureCall (.text name) (.list (exprTrees arguments))

def stmtTrees : List Stmt → List Tree
  | [] => []
  | s :: ss => s.toTree :: stmtTrees ss

end

mutual

def ConstValue.toTree : ConstValue → Tree
  | .number value => .int value
  | .literal value => .text value
  | .list values => .list (constTrees values)
  | .record fields => .recordInit (.list (fieldTrees fields))

def constTrees : List ConstValue → List Tree
  | [] => []
  | v :: vs => v.toTree :: constTrees vs

def fieldTrees : List (String × ConstValue) → List Tree
  | [] => []
  | (name, value) :: rest => .tuple [.text name, value.toTree] :: fieldTrees rest

end

def Tree.ofOption : Option Tree → Tree
  | some t => t
  | none => .null

def ArrayType.toTree (a : ArrayType) : Tree :=
  .arrayType (.list (a.dimensions.map fun d => .tuple [.int d.1, .int d.2])) (.text a.element)
    (Tree.ofOption (a.initial.map fun values => .list (constTrees values)))

mutual

def TypeExpr.toTree : TypeExpr → Tree
  | .named name => .typeName (.text name) .null
  | .array type => type.toTree
  | .record fields => .recordType (.list (memberTrees fields))
  | .omitted => .null

def memberTrees : List (String × TypeExpr) → List Tree
  | [] => []
  | (name, type) :: rest => .tuple [.text name, type.toTree] :: memberTrees rest

end

def DeclaredType.toTree : DeclaredType → Tree
  | .named name => .text name
  | .array type => type.toTree

def Parameter.toTree (p : Parameter) : Tree :=
  .parameter (.text p.name) p.type.toTree (Tree.ofOption (p.mode.map .text))

def compoundTree (statements : List Stmt) : Tree := .compound (.list (stmtTrees statements))

mutual

def Decl.toTree : Decl → Tree
  | .type name type => .typeDecl (.text name) type.toTree
  | .const name type value =>
    .constDecl (.text name) (.tuple [type.toTree, Tree.ofOption (value.map ConstValue.toTree)])
  | .var name type initial sharesType =>
    .varDecl (.text name) type.toTree (Tree.ofOption (initial.map ConstValue.toTree)) sharesType
  | .routine kind name parameters body result =>
    .routine (.text kind) (.text name) (.list (parameters.map Parameter.toTree)) body.toTree
      result.toTree

def Block.toTree : Block → Tree
  | .mk declarations statements => .block (.list (declTrees declarations)) (compoundTree statements)

def declTrees : List Decl → List Tree
  | [] => []
  | d :: ds => d.toTree :: declTrees ds

end

def Program.toTree (p : Program) : Tree := .program (.text p.name) p.block.toTree

end MiniPascal
