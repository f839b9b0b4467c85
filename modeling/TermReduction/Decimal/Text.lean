import TermReduction.Decimal.Basic
import TermReduction.Digits

/-!
How decimals are written: positionally, with or without a point for whole numbers, and in the
notation that keeps every digit of the coefficient and moves large powers of ten behind an `E`.
-/

namespace TermReduction.Decimal

def dropTrailingZeros (ds : List Char) : List Char :=
  (ds.reverse.dropWhile (· = '0')).reverse

-- The number of decimal places of the representation.
def places (x : Decimal) : Nat :=
  (-x.exponent).toNat

-- The coefficient without its sign, over a power of ten that is not positive.
def magnitude (x : Decimal) : Nat :=
  x.coefficient.natAbs * tenTo x.exponent.toNat

-- The digits before the point.
def wholeDigits (x : Decimal) : List Char :=
  digits (x.magnitude / tenTo x.places)

-- The digits after the point, as far as the last that is not zero.
def fractionDigits (x : Decimal) : List Char :=
  dropTrailingZeros (zeroPadded x.places (digits (x.magnitude % tenTo x.places)))

def signChars (x : Decimal) : List Char :=
  if x.coefficient < 0 then ['-'] else []

-- A zero without places, and every other decimal as it is. Positional notation shows no more of a
-- zero than that.
def collapseZero (x : Decimal) : Decimal :=
  if x.coefficient = 0 then ofInt 0 else x

-- Positional notation; a whole number has no point.
def plain (x : Decimal) : String :=
  let x := x.collapseZero
  String.ofList <| x.signChars ++ x.wholeDigits ++
    match x.fractionDigits with
    | [] => []
    | ds => '.' :: ds

-- Positional notation; a whole number has a point and a zero after it.
def pointedChars (x : Decimal) : List Char :=
  let x := x.collapseZero
  x.signChars ++ x.wholeDigits ++ '.' ::
    match x.fractionDigits with
    | [] => ['0']
    | ds => ds

def pointed (x : Decimal) : String :=
  String.ofList x.pointedChars

-- An exponent with its sign.
def signedExponent (e : Int) : List Char :=
  (if e < 0 then '-' else '+') :: digits e.natAbs

-- Notation that shows the coefficient digit by digit, and the sign also of a zero. It is positional
-- when the exponent is not positive and at most five zeros follow the point, and has one digit before
-- the point otherwise.
def scientific (x : Decimal) : String :=
  String.ofList <| (if x.negativeZero then ['-'] else x.signChars) ++
    if x.exponent ≤ 0 ∧ -6 ≤ x.leadingExponent then
      let ds := zeroPadded (x.places + 1) (digits x.coefficient.natAbs)
      let k := ds.length - x.places
      ds.take k ++ if x.places = 0 then [] else '.' :: ds.drop k
    else
      match digits x.coefficient.natAbs with
      | [] => []
      | d :: ds => d :: (if ds = [] then [] else '.' :: ds) ++ 'E' :: signedExponent x.leadingExponent

end TermReduction.Decimal
