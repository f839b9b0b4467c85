import TermReduction.Binary64.Elementary
import TermReduction.Binary64.Shortest
import TermReduction.Fixed.Checked

/-!
Logarithms and powers of decimals. The order of magnitude is split off, and only what lies between one
and ten goes through binary floating point, so that neither large nor small numbers overflow there. How it
is split off is also said place by place: a number is divided by ten for as long as it is above ten, or
multiplied by ten for as long as it is below one, and the passes are counted.
-/

namespace TermReduction

-- A positive number as a mantissa from one to ten and a power of ten.
structure Scaled where
  mantissa : Decimal
  exponent : Int

namespace Scaled

-- Divides by ten until at most ten is left, rounding to fixed point each time. What is counted
-- are the divisions.
def shrink (units : Nat) : Nat × Nat :=
  if units ≤ 10 * Fixed.unitsPerOne then (units, 0)
  else
    let (u, k) := shrink ((units + 5) / 10)
    (u, k + 1)
termination_by units
decreasing_by
  simp only [Fixed.unitsPerOne] at *
  omega

-- A number above ten is divided by ten, with a rounding each time, and one below one is multiplied
-- by ten, which is exact.
def ofDecimal (x : Decimal) : Scaled :=
  if .ofInt 10 < x then
    let (u, k) := shrink (Fixed.ofQuotient x (.ofInt 10)).units.toNat
    ⟨Fixed.toDecimal ⟨u⟩, k + 1⟩
  else if x < .ofInt 1 then ⟨x.shift (-x.leadingExponent), x.leadingExponent⟩
  else ⟨x, 0⟩

-- A tenth of the mantissa, rounded to fixed point.
def lower (s : Scaled) : Scaled :=
  ⟨(Fixed.ofQuotient s.mantissa (.ofInt 10)).toDecimal, s.exponent + 1⟩

-- Ten times the mantissa, which is exact.
def raise (s : Scaled) : Scaled :=
  ⟨s.mantissa * .ofInt 10, s.exponent - 1⟩

-- A loop that makes another pass for as long as its guard lets the mantissa through.
inductive Repeats (guard : Decimal → Prop) (pass : Scaled → Scaled) : Scaled → Scaled → Prop
  | stop {s} : ¬guard s.mantissa → Repeats guard pass s s
  | next {s t} : guard s.mantissa → Repeats guard pass (pass s) t → Repeats guard pass s t

-- What is left of a number when its loop has ended. One that lies between one and ten enters no loop.
inductive Reduces (x : Decimal) : Scaled → Prop
  | lower {s} : .ofInt 10 < x → Repeats (.ofInt 10 < ·) lower ⟨x, 0⟩ s → Reduces x s
  | raise {s} : x < .ofInt 1 → Repeats (· < .ofInt 1) raise ⟨x, 0⟩ s → Reduces x s
  | keep      : ¬.ofInt 10 < x → ¬x < .ofInt 1 → Reduces x ⟨x, 0⟩

end Scaled

namespace Decimal

variable [Binary64.Elementary]

-- The common logarithm: the sum of the power of ten and the logarithm of the mantissa.
def log10 (x : Decimal) : Except Error Binary64 :=
  if x.coefficient ≤ 0 then .error (.domain (.decimal x) .greaterThan 0)
  else
    let s := Scaled.ofDecimal x
    .ok (.ofInt s.exponent + (Binary64.ofDecimal s.mantissa).log10)

-- Euler's number, as a binary number writes it.
def euler : Decimal :=
  scaled 2718281828459045 (-15)

def log10E : Decimal :=
  (Binary64.ofDecimal euler).log10.shortest

def log10Fixed (x : Decimal) : Except Error Fixed := do
  return .ofDecimal (← x.log10).shortest

def ln (x : Decimal) : Except Error Fixed := do
  Fixed.quotient (← x.log10).shortest log10E

-- The logarithm to a base, as the quotient of two common logarithms.
def log (x base : Decimal) : Except Error Fixed := do
  let n ← x.log10
  let d ← base.log10
  Fixed.quotient n.shortest d.shortest

-- Ten to the power `x`, where `power` gives the powers between −1 and 1. The integer part of the
-- exponent only moves the point.
def antilogWith (power : Decimal → Decimal) (x : Decimal) : Except Error Decimal := do
  (← powerOfTen x.truncate).product (power (x - ofInt x.truncate))

-- Ten to a power between −1 and 1, through binary floating point.
def fractionalPower (x : Decimal) : Decimal :=
  (Binary64.ofDecimal x).exp10.shortest

def antilog (x : Decimal) : Except Error Decimal :=
  antilogWith fractionalPower x

-- A power, through the logarithm of its base in fixed point.
def power (base exponent : Decimal) : Except Error Decimal := do
  antilog (← (← base.log10Fixed).toDecimal.product exponent)

def exp (x : Decimal) : Except Error Decimal := do
  antilog (← log10E.product x)

end Decimal

end TermReduction
