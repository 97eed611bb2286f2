/-!
# Floating-Point Numbers

Double-precision numbers as signed multiples of powers of two, the rounding of a ratio of integers
to the nearest of them (ties to even), and the operations that are defined through exact values:
comparison with an integer, remainder and floored quotient, and rounding to decimal places.
-/

namespace MiniPascal.Real

/-- The number of binary digits of `n`. -/
def bitLength (n : Nat) : Nat := if n = 0 then 0 else n.log2 + 1

/-- `num / den` rounded to an integer, a half going to the even neighbour. -/
def roundHalfEven (num den : Nat) : Nat :=
  let q := num / den
  let twice := 2 * (num % den)
  if twice < den then q
  else if den < twice then q + 1
  else if q % 2 = 0 then q else q + 1

/-- `n * 2 ^ e` as a ratio of natural numbers. -/
def scaled (n : Nat) (e : Int) : Nat × Nat :=
  if 0 ≤ e then (n * Nat.pow 2 e.toNat, 1) else (n, Nat.pow 2 (-e).toNat)

/-- The double nearest to `num / den`, for positive `den`, if it is not too large. The quotient is
rounded to 53 binary digits, or to a multiple of the least positive double. -/
def ofRatio? (num den : Nat) : Option Float :=
  if num = 0 then some 0
  else
    let guess : Int := (bitLength num : Int) - (bitLength den : Int) - 53
    let quotient (e : Int) : Nat × Nat :=
      let (n, d) := scaled 1 (-e)
      (num * n, den * d)
    -- The quotient at `guess` has 53 or 54 binary digits.
    let (n, d) := quotient guess
    let e := if Nat.pow 2 53 ≤ n / d then guess + 1 else guess
    let e := max e (-1074)
    let (n, d) := quotient e
    let q := roundHalfEven n d
    if bitLength q + e > 1024 then none else some (Float.scaleB (Float.ofNat q) e)

/-- The double nearest to the ratio of two integers with a positive denominator. -/
def ofSignedRatio? (num : Int) (den : Nat) : Option Float :=
  (ofRatio? num.natAbs den).map fun x => if num < 0 then -x else x

/-- The double nearest to `digits * 10 ^ exponent`, which is infinite where that is too large.
Powers of ten far beyond all doubles are not computed. -/
def ofDecimal (digits : Nat) (exponent : Int) : Float :=
  let size : Int := exponent + (toString digits).length
  if digits = 0 ∨ size < -400 then 0
  else if 400 < size then 1.0 / 0.0
  else
    let value :=
      if exponent < 0 then ofRatio? digits (Nat.pow 10 exponent.natAbs)
      else ofRatio? (digits * Nat.pow 10 exponent.natAbs) 1
    value.getD (1.0 / 0.0)

/-- The double nearest to an integer, if it is not too large. -/
def ofInt? (n : Int) : Option Float := ofSignedRatio? n 1

/-- Whether the sign bit of `x` is set. -/
def signBit (x : Float) : Bool := x.toBits.toNat / Nat.pow 2 63 = 1

/-- The magnitude of a finite double as `mantissa * 2 ^ exponent`. -/
def magnitude (x : Float) : Nat × Int :=
  let bits : Nat := x.toBits.toNat % Nat.pow 2 63
  let exponent : Nat := bits / Nat.pow 2 52
  let fraction : Nat := bits % Nat.pow 2 52
  if exponent = 0 then (fraction, -1074)
  else (fraction + Nat.pow 2 52, Int.ofNat exponent - 1075)

/-- A finite double as a ratio of integers with a positive denominator. -/
def toRatio (x : Float) : Int × Nat :=
  let (m, e) := magnitude x
  let (num, den) := scaled m e
  (if signBit x then -(num : Int) else num, den)

/-- The order of an integer and a double, if the double is a number. -/
def compareInt (n : Int) (x : Float) : Option Ordering :=
  if x.isNaN then none
  else if x.isInf then some (if signBit x then .gt else .lt)
  else
    let (num, den) := toRatio x
    some (compare (n * den) num)

/-- Zero with the sign of `x`. -/
def zeroLike (x : Float) : Float := if signBit x then -0.0 else 0.0

/-- The remainder of the division of `x` by `y` truncated toward zero, with the sign of `x`, for
nonzero `y`. -/
def truncatedRem (x y : Float) : Float :=
  if x.isNaN || x.isInf || y.isNaN then 0.0 / 0.0
  else if y.isInf then x
  else
    let (a, b) := toRatio x
    let (c, d) := toRatio y
    let den := b * d
    let rem := (a.natAbs * d) % (c.natAbs * b)
    if rem = 0 then zeroLike x
    else
      match ofRatio? rem den with
      | some r => if signBit x then -r else r
      | none => 0.0

/-- The remainder of the floored division of `x` by `y`, with the sign of `y`, for nonzero `y`. -/
def flooredRem (x y : Float) : Float :=
  let r := truncatedRem x y
  if r == 0 then zeroLike y
  else if (y < 0) != (r < 0) then r + y else r

/-- The floored quotient of `x` by `y`, for nonzero `y`. -/
def flooredQuotient (x y : Float) : Float :=
  let r := truncatedRem x y
  let q := (x - r) / y
  let q := if r != 0 && ((y < 0) != (r < 0)) then q - 1 else q
  if q == 0 then zeroLike (x / y)
  else
    let below := q.floor
    if q - below > 0.5 then below + 1 else below

/-! ### Decimal places -/

/-- `n` units of the last of `places` decimal places, written with a point before the places. -/
def placed (places n : Nat) : String :=
  if places = 0 then toString n
  else
    let digits := (toString n).toList
    let padded := List.replicate (places + 1 - digits.length) '0' ++ digits
    let split := padded.length - places
    String.ofList (padded.take split ++ '.' :: padded.drop split)

/-- A ratio with a positive denominator, rounded to `places` decimal places. -/
def fixedRatio (places : Nat) (num : Int) (den : Nat) : String :=
  (if num < 0 then "-" else "") ++
    placed places (roundHalfEven (num.natAbs * Nat.pow 10 places) den)

/-- The sign of a number that has it, also where it is rounded to zero. -/
def signText (x : Float) : String := if signBit x then "-" else ""

/-- A double rounded to `places` decimal places. -/
def fixed (places : Nat) (x : Float) : String :=
  if x.isNaN then "nan"
  else if x.isInf then signText x ++ "inf"
  else
    let (num, den) := toRatio x
    signText x ++ placed places (roundHalfEven (num.natAbs * Nat.pow 10 places) den)

/-- The double nearest to `x` rounded to `places` decimal places. -/
def rounded (places : Nat) (x : Float) : Float :=
  if x.isNaN || x.isInf then x
  else
    let (num, den) := toRatio x
    match ofRatio? (roundHalfEven (num.natAbs * Nat.pow 10 places) den) (Nat.pow 10 places) with
    | some r => if signBit x then -r else r
    | none => x

end MiniPascal.Real
