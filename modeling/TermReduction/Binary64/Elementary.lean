import TermReduction.Binary64.Basic

/-!
The common logarithm and the powers of ten of binary numbers. They are what a platform makes of them, and
differ from one to another in the last place, so that all that is said of numbers is said for any two
functions. For running there are two that round once to the nearest binary number; both are computed to
far more bits than the result keeps, on integers that count units of 2⁻²⁵⁶.
-/

namespace TermReduction.Binary64

class Elementary where
  -- The common logarithm.
  log10 : Binary64 → Binary64
  -- Ten to the power of a number.
  exp10 : Binary64 → Binary64

export Elementary (log10 exp10)

-- The number of binary places of the intermediate results.
def guardBits : Nat := 256

def unit : Nat := twoTo guardBits

-- The sum of `p / k + p * z² / (k + 2) + p * z⁴ / (k + 4) + …`, of as many terms as `terms`.
def oddPowerSum (square p k : Nat) (terms : Nat) : Nat :=
  match terms with
  | 0 => 0
  | t + 1 => p / k + oddPowerSum square (p * square / unit) (k + 2) t

-- The inverse hyperbolic tangent of `n / d`, for `n / d` at most one third: every term is less
-- than a ninth of the one before, so ninety of them exhaust the places.
def atanh (n d : Nat) : Nat :=
  let z := n * unit / d
  oddPowerSum (z * z / unit) z 1 90

-- The natural logarithm of two.
def log2 : Nat :=
  2 * atanh 1 3

-- The natural logarithm of a positive number. The power of two is split off, and what is left
-- lies between one and two.
def ln (x : Binary64) : Int :=
  let s := x.significand.toNat
  let p := twoTo s.log2
  2 * atanh (s - p) (s + p) + (x.exponent + s.log2) * log2

def roundedLog10 (x : Binary64) : Binary64 :=
  ofRatio x.ln (ofInt 10).ln

-- The sum `p + p * r / k + p * r² / (k * (k + 1)) + …`, of as many terms as `terms`.
def factorialSum (r p k : Nat) (terms : Nat) : Nat :=
  match terms with
  | 0 => 0
  | t + 1 => p + factorialSum r (p * r / unit / k) (k + 1) t

-- The exponential of `r`, for `r` less than one: eighty terms exhaust the places.
def expSmall (r : Nat) : Nat :=
  factorialSum r unit 1 80

-- Ten to the power `x`. The exponent times the logarithm of ten is a whole number of logarithms of
-- two and a rest below one of them.
def roundedExp10 (x : Binary64) : Binary64 :=
  let t := x.significand * (ofInt 10).ln * twoTo x.exponent.toNat / twoTo (-x.exponent).toNat
  let k := t / log2
  ofRatio (expSmall (t % log2).toNat * twoTo k.toNat) (unit * twoTo (-k).toNat)

namespace Rounded

scoped instance : Elementary where
  log10 := roundedLog10
  exp10 := roundedExp10

end Rounded

end TermReduction.Binary64
