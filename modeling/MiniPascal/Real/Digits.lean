import MiniPascal.Real.Shortest

/-!
# Numbers with a Given Count of Digits

The text of a number's magnitude in one of three styles: with an exponent, with fixed places, or
whichever of the two suits a given count of significant digits. The exact value is rounded, a half
going to the even neighbour.
-/

namespace MiniPascal.Real

/-- How the digits of a number are laid out. -/
inductive Style where
  /-- One digit before the point, and an exponent. -/
  | exponent
  /-- All places before the point. -/
  | fixed
  /-- With an exponent if the number is below one ten-thousandth or has more places before the point
  than significant digits. -/
  | general
  deriving DecidableEq, Repr

/-- The first `count` digits of the magnitude of a finite double, rounded, and the position of its
point. -/
def significant (count : Nat) (x : Float) : List Char × Int :=
  let (mantissa, exponent) := magnitude x
  if mantissa = 0 then (List.replicate count '0', 1)
  else
    let (num, den) := scaled mantissa exponent
    let point := pointPosition num den
    let (num, den) := shiftedRatio num den (point - count)
    let digits := (toString (roundHalfEven num den)).toList
    -- Rounding up may have added a digit, a zero at the end.
    if count < digits.length then (digits.take count, point + 1) else (digits, point)

/-- Digits without the zeros at their end; one digit stays. -/
def withoutEndZeros : List Char → List Char
  | [] => []
  | d :: rest => d :: (rest.reverse.dropWhile (· = '0')).reverse

/-- Two digit sequences with a point between them. Without digits after it the point stands only if
it is to be kept. -/
def pointed (keepPoint : Bool) (before after : List Char) : List Char :=
  if after.isEmpty && !keepPoint then before else before ++ '.' :: after

def pointedAt (keepPoint : Bool) (digits : List Char) (point : Int) : List Char :=
  if point ≤ 0 then pointed keepPoint ['0'] (List.replicate (-point).toNat '0' ++ digits)
  else
    let whole := digits.take point.toNat
    let padding := List.replicate (point.toNat - whole.length) '0'
    pointed keepPoint (whole ++ padding) (digits.drop point.toNat)

/-- Digits with one of them before the point, and an exponent of at least two places. -/
def withExponent (keepPoint : Bool) (digits : List Char) (point : Int) : List Char :=
  let exponent := point - 1
  let places := (toString exponent.natAbs).toList
  let padded := List.replicate (2 - places.length) '0' ++ places
  pointed keepPoint (digits.take 1) (digits.drop 1) ++
    'e' :: (if exponent < 0 then '-' else '+') :: padded

/-- The text of the magnitude of a double. The precision counts the places after the point or, in
the general style, the significant digits. Keeping the point also keeps zeros at the end. -/
def styled (style : Style) (precision : Nat) (keepPoint : Bool) (x : Float) : String :=
  if x.isNaN then "nan"
  else if x.isInf then "inf"
  else
    match style with
    | .exponent =>
      let (digits, point) := significant (precision + 1) x
      String.ofList (withExponent keepPoint digits point)
    | .fixed =>
      let (num, den) := toRatio x
      placed precision (roundHalfEven (num.natAbs * Nat.pow 10 precision) den) ++
        if keepPoint && precision = 0 then "." else ""
    | .general =>
      let count := max precision 1
      let (digits, point) := significant count x
      let kept := if keepPoint then digits else withoutEndZeros digits
      String.ofList
        (if point ≤ -4 ∨ (count : Int) < point then withExponent keepPoint kept point
          else pointedAt keepPoint kept point)

end MiniPascal.Real
