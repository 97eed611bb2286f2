import MiniPascal.Template

/-!
# Operators

What the operators of expressions do with values. Whole numbers are unbounded; a quotient written
with `/` is a floating-point number; `DIV` and `MOD` are floored. Texts and lists can be joined and
repeated, and `MOD` fills a template.
-/

namespace MiniPascal.Tree

/-- The arithmetic operators. -/
inductive Arith where
  | add | subtract | multiply | divide | quotient | remainder

def arithWhole (op : Arith) (m n : Int) : Except Fault Tree :=
  match op with
  | .add => .ok (int (m + n))
  | .subtract => .ok (int (m - n))
  | .multiply => .ok (int (m * n))
  | .divide =>
    if n = 0 then .error .divisionByZero
    else
      -- A zero has a sign as well.
      match Real.ofRatio? m.natAbs n.natAbs with
      | some x => .ok (real (if decide (m < 0) != decide (n < 0) then -x else x))
      | none => .error .tooLarge
  | .quotient => if n = 0 then .error .divisionByZero else .ok (int (m.fdiv n))
  | .remainder => if n = 0 then .error .divisionByZero else .ok (int (m.fmod n))

def arithReal (op : Arith) (x y : Float) : Except Fault Tree :=
  match op with
  | .add => .ok (real (x + y))
  | .subtract => .ok (real (x - y))
  | .multiply => .ok (real (x * y))
  | .divide => if y == 0 then .error .divisionByZero else .ok (real (x / y))
  | .quotient =>
    if y == 0 then .error .divisionByZero else .ok (real (Real.flooredQuotient x y))
  | .remainder => if y == 0 then .error .divisionByZero else .ok (real (Real.flooredRem x y))

/-- An operation on numbers: whole if both are. -/
def arithNumbers (op : Arith) : Number → Number → Except Fault Tree
  | .whole m, .whole n => arithWhole op m n
  | a, b => do arithReal op (← a.toReal) (← b.toReal)

/-- `n` copies of a list, one after the other; none if `n` is negative. -/
def copies {α : Type} (xs : List α) (n : Int) : List α :=
  if xs.isEmpty then [] else (List.replicate n.toNat xs).flatten

/-- The number of copies of a sequence that a tree asks for. The characters of a text must have a
count; other sequences are limited by the memory alone. -/
def copyCount (isText : Bool) (length : Nat) (t : Tree) : Except Fault Int :=
  match t.toInt? with
  | none => .error .wrongKind
  | some n =>
    if n < -(maxCount : Int) - 1 ∨ (maxCount : Int) < n then .error .tooLarge
    else if isText ∧ maxCount < length * n.toNat then .error .tooLarge
    else if maxLength < length * n.toNat then .error .outOfMemory
    else .ok n

def repeatText (s : String) (t : Tree) : Except Fault Tree := do
  let n ← copyCount true s.length t
  return text (String.ofList (copies s.toList n))

/-- Copies of a sequence that is made by `make`, as many as a tree says. -/
def repeatItems (make : List Tree → Tree) (xs : List Tree) (t : Tree) : Except Fault Tree := do
  let n ← copyCount false xs.length t
  return make (copies xs n)

def arith (op : Arith) (a b : Tree) : Except Fault Tree :=
  match number? a, number? b with
  | some m, some n => arithNumbers op m n
  | _, _ =>
    match op, a, b with
    | .add, text s, text t => .ok (text (s ++ t))
    | .add, list xs, t => do return list (xs ++ (← t.elements))
    | .add, tuple xs, tuple ys => .ok (tuple (xs ++ ys))
    | .multiply, text s, t => repeatText s t
    | .multiply, list xs, t => repeatItems list xs t
    | .multiply, tuple xs, t => repeatItems tuple xs t
    | .multiply, t, text s => repeatText s t
    | .multiply, t, list xs => repeatItems list xs t
    | .multiply, t, tuple xs => repeatItems tuple xs t
    | .remainder, text s, t => do return text (← Template.fill s t)
    | _, _, _ => .error .wrongKind

/-- Applies an additive operator, if it is one. -/
def applyAdditive? (operator left right : Tree) : Option (Except Fault Tree) :=
  match operator with
  | text "+" => some (arith .add left right)
  | text "-" => some (arith .subtract left right)
  | text "OR" => some (.ok (bool (left.isTruthy || right.isTruthy)))
  | _ => none

/-- Applies a multiplicative operator, if it is one. -/
def applyMultiplicative? (operator left right : Tree) : Option (Except Fault Tree) :=
  match operator with
  | text "*" => some (arith .multiply left right)
  | text "/" => some (arith .divide left right)
  | text "DIV" => some (arith .quotient left right)
  | text "MOD" => some (arith .remainder left right)
  | text "AND" => some (.ok (bool (left.isTruthy && right.isTruthy)))
  | _ => none

/-- Whether two trees stand in an order relation. A sequence comes neither before nor after itself,
whatever its items are. -/
def ordered (identical : Bool) (left right : Tree) (test : Ordering → Bool) :
    Except Fault Tree := do
  if identical && left.isSequence then return bool (test .eq)
  else return bool (((← left.order right).map test).getD false)

/-- Applies a relational operator, if it is one, to two trees that may be known to be one and the
same. -/
def applyRelational? (identical : Bool) (operator left right : Tree) :
    Option (Except Fault Tree) :=
  match operator with
  | text "=" => some (.ok (bool (identical || left.same right)))
  | text "<>" => some (.ok (bool !(identical || left.same right)))
  | text "<" => some (ordered identical left right (· == .lt))
  | text ">" => some (ordered identical left right (· == .gt))
  | text "<=" => some (ordered identical left right (· != .gt))
  | text ">=" => some (ordered identical left right (· != .lt))
  | _ => none

end MiniPascal.Tree
