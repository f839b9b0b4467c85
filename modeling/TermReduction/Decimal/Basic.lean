import TermReduction.DigitCount
import TermReduction.Rounding

/-!
Decimal numbers of any length: an integer coefficient times a power of ten. Sums, differences and
products are exact. One number has many representations, and what counts is its value `toRat`. How
far exponents may go is a matter of range, which single operations check.
-/

namespace TermReduction

structure Decimal where
  coefficient : Int
  exponent : Int
  -- Whether a zero is written with a minus sign. Arithmetic takes no notice of it.
  negativeZero : Bool := false
deriving DecidableEq

namespace Decimal

-- The number that a decimal denotes.
def toRat (x : Decimal) : Rat :=
  x.coefficient * 10 ^ x.exponent

-- The decimal `c * 10 ^ e`.
def scaled (c e : Int) : Decimal :=
  { coefficient := c, exponent := e }

def ofInt (n : Int) : Decimal :=
  scaled n 0

-- The decimal `10 ^ k * x`, for `k` of either sign.
def shift (x : Decimal) (k : Int) : Decimal :=
  scaled x.coefficient (x.exponent + k)

-- The coefficient of `x` over the power of ten `e`, for `e` at most the exponent of `x`.
def coefficientAt (x : Decimal) (e : Int) : Int :=
  scaleUp x.coefficient (x.exponent - e).toNat

def add (x y : Decimal) : Decimal :=
  let e := min x.exponent y.exponent
  scaled (x.coefficientAt e + y.coefficientAt e) e

def neg (x : Decimal) : Decimal :=
  scaled (-x.coefficient) x.exponent

def mul (x y : Decimal) : Decimal :=
  scaled (x.coefficient * y.coefficient) (x.exponent + y.exponent)

instance : Add Decimal := ⟨add⟩
instance : Neg Decimal := ⟨neg⟩
instance : Sub Decimal := ⟨fun x y => x + -y⟩
instance : Mul Decimal := ⟨mul⟩

-- Decimals are ordered by value, so the coefficients are compared over one power of ten.
instance : LT Decimal where
  lt x y := x.coefficientAt (min x.exponent y.exponent) < y.coefficientAt (min x.exponent y.exponent)

instance (x y : Decimal) : Decidable (x < y) :=
  inferInstanceAs (Decidable (_ < (_ : Int)))

-- The integer part, cut off toward zero.
def truncate (x : Decimal) : Int :=
  if 0 ≤ x.exponent then scaleUp x.coefficient x.exponent.toNat
  else truncateShift x.coefficient (-x.exponent).toNat

-- A decimal is integral when nothing is left after its integer part. A coefficient that is
-- shorter than its fractional places leaves something unless it is zero.
def IsWhole (x : Decimal) : Prop :=
  0 ≤ x.exponent ∨
    x.coefficient % tenTo (min (-x.exponent).toNat (width x.coefficient.natAbs)) = 0

instance (x : Decimal) : Decidable x.IsWhole :=
  inferInstanceAs (Decidable (_ ∨ _))

-- The power of ten of the leading digit, which for zero is that of its only digit.
def leadingExponent (x : Decimal) : Int :=
  x.exponent + digitCount x.coefficient.natAbs - 1

-- The greatest power of ten of a leading digit.
def greatestExponent : Int := 999999999999999999

-- The greatest number of digits.
def precision : Nat := 999999999999999999

-- The least power of ten of a last digit: numbers below `10 ^ -greatestExponent` lose digits one by
-- one, down to a single one.
def leastExponent : Int := -greatestExponent - (precision - 1 : Nat)

def InRange (x : Decimal) : Prop :=
  leastExponent ≤ x.exponent ∧ x.leadingExponent ≤ greatestExponent

instance (x : Decimal) : Decidable x.InRange :=
  inferInstanceAs (Decidable (_ ∧ _))

-- The number of significant digits that a square root is computed to.
def rootPrecision : Nat := 34

-- The square root to `rootPrecision` significant digits, halves to the even neighbour; zero for a
-- negative number.
def sqrt (x : Decimal) : Decimal :=
  let e := x.leadingExponent / 2 - (rootPrecision - 1 : Nat)
  let k := x.exponent - 2 * e
  scaled (rootHalfEven (x.coefficient.toNat * tenTo k.toNat) (tenTo (-k).toNat)) e

end Decimal

end TermReduction
