import TermReduction.Decimal.Basic

/-!
Binary floating-point numbers of 53 significant bits with a least exponent of −1074, as exact
dyadic numbers. A real quotient becomes the nearest such number, halves to the even significand.
The exponent has no upper bound here, and there is one zero.
-/

namespace TermReduction

-- The number `significand * 2 ^ exponent`. The significand has 53 bits, or fewer if the exponent is
-- the least one.
structure Binary64 where
  significand : Int
  exponent : Int
deriving DecidableEq

namespace Binary64

def precision : Nat := 53

def leastExponent : Int := -1074

def toRat (x : Binary64) : Rat :=
  x.significand * 2 ^ x.exponent

def zero : Binary64 := ⟨0, leastExponent⟩

-- The exponent of the power of two at or below `n / d`, for positive `n` and `d`.
def floorLog2 (n d : Nat) : Int :=
  let k : Int := n.log2 - d.log2
  if d * twoTo k.toNat ≤ n * twoTo (-k).toNat then k else k - 1

-- The number nearest to `n / d`; zero if `d` is zero.
def ofNatRatio (n d : Nat) : Binary64 :=
  if n = 0 ∨ d = 0 then zero
  else
    let e := max (floorLog2 n d - (precision - 1 : Nat)) leastExponent
    let s := roundHalfEven (n * twoTo (-e).toNat) (d * twoTo e.toNat)
    -- rounding up may carry into one more bit
    if s = twoTo precision then ⟨twoTo (precision - 1), e + 1⟩ else ⟨s, e⟩

def neg (x : Binary64) : Binary64 :=
  ⟨-x.significand, x.exponent⟩

instance : Neg Binary64 := ⟨neg⟩

-- The number nearest to `n / d`; zero if `d` is zero.
def ofRatio (n d : Int) : Binary64 :=
  let x := ofNatRatio n.natAbs d.natAbs
  if n.sign * d.sign < 0 then -x else x

-- The number nearest to `s * 2 ^ e`.
def ofDyadic (s e : Int) : Binary64 :=
  ofRatio (s * twoTo e.toNat) (twoTo (-e).toNat)

def ofInt (n : Int) : Binary64 :=
  ofRatio n 1

-- The least power of ten of a leading digit for which a decimal is not always nearest to zero.
def leastDecimalExponent : Int := -324

-- The number nearest to `x`. Very small numbers become zero without their power of ten being formed.
def ofDecimal (x : Decimal) : Binary64 :=
  if x.leadingExponent < leastDecimalExponent then zero
  else ofRatio (scaleUp x.coefficient x.exponent.toNat) (tenTo (-x.exponent).toNat)

-- The exact sum, rounded once.
def add (x y : Binary64) : Binary64 :=
  let e := min x.exponent y.exponent
  ofDyadic (x.significand * twoTo (x.exponent - e).toNat + y.significand * twoTo (y.exponent - e).toNat) e

instance : Add Binary64 := ⟨add⟩

end Binary64

end TermReduction
