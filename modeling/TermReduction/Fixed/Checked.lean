import TermReduction.Decimal.Checked

/-!
The roundings to fixed point that refuse a zero divisor, a negative radicand or a number with too many
digits, and the negation, which refuses large numbers.
-/

namespace TermReduction.Fixed

-- The number nearest to `x`, with all its digits down to the last place.
def round (x : Decimal) : Except Error Fixed :=
  if x.coefficient ≠ 0 ∧ Decimal.precision ≤ x.leadingExponent + places then .error .outOfRange
  else .ok (ofDecimal x)

-- The number nearest to `n / d`.
def ratio (n d : Int) : Except Error Fixed :=
  if d = 0 then .error .divisionByZero else .ok ⟨divideHalfAway (n * unitsPerOne) d⟩

-- The number nearest to `x / y`.
def quotient (x y : Decimal) : Except Error Fixed :=
  if y.coefficient = 0 then .error .divisionByZero else .ok (ofQuotient x y)

-- The square root, rounded to significant digits first and to decimal places after that.
def sqrt (x : Decimal) : Except Error Fixed :=
  if x.coefficient < 0 then .error .negativeRoot else .ok (ofDecimal x.sqrt)

-- The greatest power of ten of a leading digit that a negation produces.
def negationLimit : Int := 999999

def negate (x : Fixed) : Except Error Fixed :=
  if negationLimit < (-x).toDecimal.leadingExponent then .error .overflow else .ok (-x)

end TermReduction.Fixed
