import MiniPascal.Real

/-!
# The Shortest Text of a Number

The decimal text of a double with the fewest digits that read back as the same double; of several
such, the one nearest to it, an even last digit deciding between two. Numbers from one
ten-thousandth up to ten to the sixteenth are written with a point and at least one digit after it,
all others with an exponent.
-/

namespace MiniPascal.Real

/-- The decimal places before the point of a positive ratio: the least `p` with
`num / den < 10 ^ p`, for ratios that doubles have. -/
def pointPosition (num den : Nat) : Int :=
  if den ≤ num then (toString (num / den)).length
  else
    match (List.range 400).find? fun j => den ≤ num * Nat.pow 10 (j + 1) with
    | some j => -(j : Int)
    | none => 0

/-- `num / den` divided by `10 ^ e`, as a ratio. -/
def shiftedRatio (num den : Nat) (e : Int) : Nat × Nat :=
  if 0 ≤ e then (num, den * Nat.pow 10 e.toNat) else (num * Nat.pow 10 (-e).toNat, den)

/-- The reals that are read as a double: their ends, in quarters of the unit of the double, and
whether the ends belong to them. -/
structure Neighbourhood where
  /-- Four times the mantissa. -/
  centre : Nat
  /-- The lower end. -/
  low : Nat
  /-- The upper end. -/
  high : Nat
  /-- Whether both ends are read as the double. -/
  closed : Bool

/-- The neighbourhood of a double by its mantissa. Below a power of two doubles lie closer. -/
def Neighbourhood.of (mantissa : Nat) (exponent : Int) : Neighbourhood :=
  let below := if mantissa = Nat.pow 2 52 ∧ -1074 < exponent then 1 else 2
  { centre := 4 * mantissa, low := 4 * mantissa - below, high := 4 * mantissa + 2
    closed := mantissa % 2 = 0 }

/-- A text of `count` digits for a double, as a whole number of units of `10 ^ (point - count)`, if
one of the two such numbers around the double lies in its neighbourhood. -/
def digitsWith? (hood : Neighbourhood) (exponent point : Int) (count : Nat) : Option Nat :=
  let ratio (quarters : Nat) : Nat × Nat :=
    let (num, den) := scaled quarters (exponent - 2)
    shiftedRatio num den (point - count)
  let (num, den) := ratio hood.centre
  let (lowNum, lowDen) := ratio hood.low
  let (highNum, highDen) := ratio hood.high
  let inside (n : Nat) : Bool :=
    if hood.closed then decide (lowNum ≤ n * lowDen ∧ n * highDen ≤ highNum)
    else decide (lowNum < n * lowDen ∧ n * highDen < highNum)
  let below := num / den
  -- The nearer of the two is tried first.
  let first := roundHalfEven num den
  let second := if first = below then below + 1 else below
  if inside first then some first else if inside second then some second else none

/-- The digits of the shortest text of a positive double and the position of its point. -/
def shortestDigits (x : Float) : List Char × Int :=
  let (mantissa, exponent) := magnitude x
  let (num, den) := scaled mantissa exponent
  let point := pointPosition num den
  let hood := Neighbourhood.of mantissa exponent
  let found := ((List.range 17).map (· + 1)).findSome? fun count =>
    (digitsWith? hood exponent point count).map fun n => (n, count)
  match found with
  | none => (['0'], 1)
  | some (n, count) =>
    let digits := (toString n).toList
    -- Rounding up may have added a digit.
    let point := point + (digits.length - count : Int)
    let trimmed := (digits.reverse.dropWhile (· = '0')).reverse
    (if trimmed.isEmpty then ['0'] else trimmed, point)

def positional (digits : List Char) (point : Int) : String :=
  if point ≤ 0 then
    String.ofList ('0' :: '.' :: (List.replicate (-point).toNat '0' ++ digits))
  else
    let whole := digits.take point.toNat
    let padding := List.replicate (point.toNat - whole.length) '0'
    let rest := digits.drop point.toNat
    String.ofList (whole ++ padding ++ '.' :: (if rest.isEmpty then ['0'] else rest))

/-- Digits with an exponent of at least two places. -/
def scientific (digits : List Char) (point : Int) : String :=
  let exponent := point - 1
  let places := toString exponent.natAbs
  let padded := if places.length < 2 then "0" ++ places else places
  let sign := if exponent < 0 then "-" else "+"
  let mantissa := match digits with
    | [] => []
    | [d] => [d]
    | d :: rest => d :: '.' :: rest
  String.ofList mantissa ++ "e" ++ sign ++ padded

def shortest (x : Float) : String :=
  if x.isNaN then "nan"
  else
    let sign := if signBit x then "-" else ""
    if x.isInf then sign ++ "inf"
    else if x == 0 then sign ++ "0.0"
    else
      let (digits, point) := shortestDigits x
      sign ++ if -4 < point ∧ point ≤ 16 then positional digits point else scientific digits point

end MiniPascal.Real
