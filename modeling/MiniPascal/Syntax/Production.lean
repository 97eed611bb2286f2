import MiniPascal.Syntax.Layered
import MiniPascal.Syntax.Parser

/-!
# Parsing by Production

Any production of the two grammars can be parsed on its own. The result is given as a tree, with the
number of tokens that were taken.
-/

namespace MiniPascal

/-- The productions of the grammar. -/
inductive Production where
  | program | block | declarations
  | arrayType (initialised : Bool)
  | valueSection (isConst : Bool)
  | recordValue | constValue
  | variableSection | variableValue
  | typeSection | typeDecl | typeExpr
  | routine | parameterList | parameterGroup
  | compound | statement | assignment | target
  | recordType
  | ifStatement | whileStatement | forStatement
  | procedureCall
  | functionCall (name : Tree)
  | expression | operand | factor

def Production.parser (fuel : Nat) : Production → Parse Tree
  | program => Program.toTree <$> Grammar.program fuel
  | block => Block.toTree <$> Grammar.block fuel
  | declarations => (.list <| declTrees ·) <$> Grammar.declarations fuel
  | arrayType initialised => ArrayType.toTree <$> Grammar.arrayType initialised fuel
  | valueSection isConst => (.list <| declTrees ·) <$> Grammar.valueSection isConst fuel
  | recordValue => (.recordInit <| .list <| fieldTrees ·) <$> Grammar.recordValue fuel
  | constValue => ConstValue.toTree <$> Grammar.constValue fuel
  | variableSection => (.list <| declTrees ·) <$> Grammar.variableSection fuel
  | variableValue => ConstValue.toTree <$> Grammar.variableValue fuel
  | typeSection => (.list <| declTrees ·) <$> Grammar.typeSection fuel
  | typeDecl => Decl.toTree <$> Grammar.typeDecl fuel
  | typeExpr => TypeExpr.toTree <$> Grammar.typeExpr fuel
  | routine => Decl.toTree <$> Grammar.routine fuel
  | parameterList => (.list <| ·.map Parameter.toTree) <$> Grammar.parameterList fuel
  | parameterGroup => (.list <| ·.map Parameter.toTree) <$> Grammar.parameterGroup fuel
  | compound => compoundTree <$> Grammar.compound fuel
  | statement => Stmt.toTree <$> Grammar.statement fuel
  | assignment => Stmt.toTree <$> Grammar.assignment fuel
  | target => Designator.toTree <$> Grammar.target fuel
  | recordType => (.recordType <| .list <| memberTrees ·) <$> Grammar.recordType fuel
  | ifStatement => Stmt.toTree <$> Grammar.ifStatement fuel
  | whileStatement => Stmt.toTree <$> Grammar.whileStatement fuel
  | forStatement => Stmt.toTree <$> Grammar.forStatement fuel
  | procedureCall => Stmt.toTree <$> Grammar.procedureCall fuel
  | functionCall name => (.functionCall name <| .list <| exprTrees ·) <$> Grammar.callArguments fuel
  | expression => Expr.toTree <$> Grammar.expression fuel
  | operand => Operand.toTree <$> Grammar.operand fuel
  | factor => Operand.toTree <$> Grammar.factor fuel

/-- The tree that a production forms from the front of a list of tokens, and how many tokens it
takes. -/
def Production.parse (p : Production) (tokens : List Token) : Except ParseError (Tree × Nat) := do
  let (tree, rest) ← (p.parser (Grammar.depthFor tokens)).run tokens
  return (tree, tokens.length - rest.length)

namespace Layered

/-- The productions of the layered grammar. -/
inductive Production where
  | program | block | typeName | variableSection
  | compound | statement | assignment
  | ifStatement | whileStatement | forStatement
  | sum | product | factor

def Production.parser (fuel : Nat) : Production → Parse Tree
  | program => Program.toTree <$> Layered.program fuel
  | block => blockTree <$> Layered.block fuel
  | typeName => (fun name => Tree.typeName (.text name) .null) <$> Layered.typeName
  | variableSection => (fun _ => noVariables) <$> Layered.variableSection fuel
  | compound => compoundTree <$> Layered.compound fuel
  | statement => Stmt.toTree <$> Layered.statement fuel
  | assignment => Stmt.toTree <$> Layered.assignment fuel
  | ifStatement => Stmt.toTree <$> Layered.ifStatement fuel
  | whileStatement => Stmt.toTree <$> Layered.whileStatement fuel
  | forStatement => Stmt.toTree <$> Layered.forStatement fuel
  | sum => Sum.toTree <$> Layered.sum fuel
  | product => Product.toTree <$> Layered.product fuel
  | factor => Factor.toTree <$> Layered.factor fuel

/-- The tree that a production of the layered grammar forms from the front of a list of tokens, and
how many tokens it takes. -/
def Production.parse (p : Production) (tokens : List Token) : Except ParseError (Tree × Nat) := do
  let (tree, rest) ← (p.parser (Grammar.depthFor tokens)).run tokens
  return (tree, tokens.length - rest.length)

end Layered

end MiniPascal
