import MiniPascal.Real
import MiniPascal.Tree

/-!
# Comparing Trees

Equality of plain data: numbers compare by value whatever their kind, truth values counting as 0
and 1, and dictionaries compare without regard to order. A node is equal to no tree that was built
apart from it. Numbers, texts and sequences are also ordered, sequences by their first difference.
-/

namespace MiniPascal.Tree

/-- A numeric tree. -/
inductive Number where
  | whole (n : Int)
  | real (x : Float)

def number? : Tree → Option Number
  | int n => some (.whole n)
  | bool b => some (.whole (if b then 1 else 0))
  | real x => some (.real x)
  | _ => none

def Number.toReal : Number → Except Fault Float
  | .real x => .ok x
  | .whole n =>
    match Real.ofInt? n with
    | some x => .ok x
    | none => .error .tooLarge

/-- The order of two doubles, if both are numbers. -/
def compareReals (x y : Float) : Option Ordering :=
  if x < y then some .lt else if x == y then some .eq else if y < x then some .gt else none

/-- The order of two numbers, if both are numbers. -/
def Number.compare : Number → Number → Option Ordering
  | .whole m, .whole n => some (Ord.compare m n)
  | .whole m, .real y => Real.compareInt m y
  | .real x, .whole n => (Real.compareInt n x).map Ordering.swap
  | .real x, .real y => compareReals x y

def sameNumber (a b : Tree) : Bool :=
  match number? a, number? b with
  | some m, some n => m.compare n == some .eq
  | _, _ => false

mutual

/-- Whether two trees are equal as values. -/
def same : Tree → Tree → Bool
  | null, null => true
  | text s, text t => s == t
  | list xs, list ys | tuple xs, tuple ys => sameAll xs ys
  | dict es, dict fs => es.length == fs.length && sameEntries es fs
  | table es, table fs => es.length == fs.length && sameTable es fs
  | shown kind s _, shown other t _ => kind == other && s == t
  | scope m, scope n => m == n
  | bool a, t => sameNumber (bool a) t
  | int a, t => sameNumber (int a) t
  | real a, t => sameNumber (real a) t
  | _, _ => false

def sameAll : List Tree → List Tree → Bool
  | [], [] => true
  | x :: xs, y :: ys => same x y && sameAll xs ys
  | _, _ => false

def sameEntries : List (String × Tree) → List (String × Tree) → Bool
  | [], _ => true
  | (k, v) :: rest, fs =>
    (match fs.lookup k with
      | some w => same v w
      | none => false) && sameEntries rest fs

def sameTable : List (Tree × Tree) → List (Tree × Tree) → Bool
  | [], _ => true
  | (k, v) :: rest, fs => (fs.any fun (l, w) => same k l && same v w) && sameTable rest fs

end

def isTextOf (t : Tree) (s : String) : Bool :=
  match t with
  | text u => u == s
  | _ => false

def compareTexts (s t : String) : Ordering :=
  if s < t then .lt else if s = t then .eq else .gt

def orderNumbers (a b : Tree) : Except Fault (Option Ordering) :=
  match number? a, number? b with
  | some m, some n => .ok (m.compare n)
  | _, _ => .error .wrongKind

mutual

/-- The order of two trees of kinds that are ordered; `none` inside stands for incomparable
numbers. -/
def order : Tree → Tree → Except Fault (Option Ordering)
  | text s, text t => .ok (some (compareTexts s t))
  | list xs, list ys | tuple xs, tuple ys => orderAll xs ys
  | bool a, t => orderNumbers (bool a) t
  | int a, t => orderNumbers (int a) t
  | real a, t => orderNumbers (real a) t
  | _, _ => .error .wrongKind

def orderAll : List Tree → List Tree → Except Fault (Option Ordering)
  | [], [] => .ok (some .eq)
  | [], _ :: _ => .ok (some .lt)
  | _ :: _, [] => .ok (some .gt)
  | x :: xs, y :: ys => if same x y then orderAll xs ys else order x y

end

end MiniPascal.Tree
