import TermReduction.Error

/-!
The operations on decimals whose results may leave the range of exponents. A result that is too large
is refused, and one that is too small loses its last digits.
-/

namespace TermReduction.Decimal

def ensureInRange (x : Decimal) : Except Error Unit :=
  if x.InRange then .ok () else .error .outOfRange

-- Brings a result into range. Digits below the least exponent are rounded off, halves away from
-- zero.
def fit (x : Decimal) : Except Error Decimal :=
  if x.coefficient ≠ 0 ∧ greatestExponent < x.leadingExponent then .error .overflow
  else if x.exponent < leastExponent then
    .ok (scaled (roundShift x.coefficient (leastExponent - x.exponent).toNat) leastExponent)
  else .ok x

def sum (x y : Decimal) : Except Error Decimal :=
  (x + y).fit

def difference (x y : Decimal) : Except Error Decimal :=
  (x - y).fit

def product (x y : Decimal) : Except Error Decimal :=
  (x * y).fit

-- The greatest distance by which the point is moved.
def greatestShift : Int :=
  2 * (greatestExponent + precision)

def powerOfTen (k : Int) : Except Error Decimal :=
  if greatestShift < k.natAbs then .error .outOfRange else (scaled 1 k).fit

theorem fit_of_inRange {x : Decimal} (h : x.InRange) : x.fit = .ok x := by
  have h₁ := h.1
  have h₂ := h.2
  rw [fit, if_neg (by omega), if_neg (by omega)]

end TermReduction.Decimal
