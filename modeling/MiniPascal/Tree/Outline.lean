import MiniPascal.Tree.Render

/-!
# Outlines of Expressions

The outline of an expression is a dictionary that names its kind and shows its operands in the same
way. Only expressions have outlines; an operand of another kind stands as it is, or by its written
form, except that a factor cannot enclose anything without an outline.
-/

namespace MiniPascal.Tree

def hasOutline : Tree → Bool
  | expression .. | simple .. | term .. | factor .. => true
  | _ => false

mutual

def outline : Tree → Except Fault Tree
  | expression left operator right => do
    let l ← if left.hasOutline then outline left else text <$> left.plain
    if operator.isTruthy && right.isTruthy then
      let r ← if right.hasOutline then outline right else text <$> right.plain
      return dict [("node", text "ExpressionNode"), ("left", l), ("relational_operator", operator),
        ("right", r)]
    else return dict [("node", text "ExpressionNode"), ("left", l)]
  | simple terms operator => do
    let items ← outlineElements terms
    return dict ([("node", text "SimpleExpressionNode"), ("terms", list items)] ++
      (if operator.isTruthy then [("additive_operator", operator)] else []))
  | term factors operator => do
    let items ← outlineElements factors
    return dict ([("node", text "TermNode"), ("factors", list items)] ++
      (if operator.isTruthy then [("multiplicative_operator", operator)] else []))
  | factor value name inner negated => do
    let kind := ("node", text "FactorNode")
    if !value.isNull then return dict [kind, ("value", value)]
    else if !name.isNull then return dict [kind, ("identifier", name)]
    else if !inner.isNull then
      return dict [kind, ("sub_expression", ← outline inner), ("is_not", negated)]
    else return dict [kind]
  | _ => .error .noSuchPart

def outlineElements : Tree → Except Fault (List Tree)
  | list xs | tuple xs => outlineItems xs
  | text s => (text s).elements
  | dict es => (dict es).elements
  | _ => .error .wrongKind

def outlineItems : List Tree → Except Fault (List Tree)
  | [] => .ok []
  | x :: xs => do
    let first ← if x.hasOutline then outline x else .ok x
    return first :: (← outlineItems xs)

end

end MiniPascal.Tree
