import TermReduction.Logarithm
import TermReduction.Proofs.Binary64.Integer
import TermReduction.Proofs.Fixed.Nearest

/-!
The common logarithm of a decimal, and what is assumed of it where it is divided by: that it is zero at one
only. The logarithm of Euler's number is then not zero either.
-/

namespace TermReduction

namespace Fixed

variable {x : Fixed}

theorem ofInt_lt_toDecimal {n : Int} : .ofInt n < x.toDecimal ↔ n * unitsPerOne < x.units := by
  show scaleUp n _ < scaleUp x.units _ ↔ _
  rw [scaleUp_eq, scaleUp_eq]
  show n * (unitsPerOne : Int) < x.units * (1 : Nat) ↔ _
  rw [Nat.cast_one, Int.mul_one]

theorem toDecimal_lt_ofInt {n : Int} : x.toDecimal < .ofInt n ↔ x.units < n * unitsPerOne := by
  show scaleUp x.units _ < scaleUp n _ ↔ _
  rw [scaleUp_eq, scaleUp_eq]
  show x.units * (1 : Nat) < n * (unitsPerOne : Int) ↔ _
  rw [Nat.cast_one, Int.mul_one]

end Fixed

theorem Decimal.log10_eq_ok [Binary64.Elementary] {x : Decimal} (h : 0 < x.coefficient) : x.log10 =
    .ok (Binary64.ofInt (Scaled.ofDecimal x).exponent +
      (Binary64.ofDecimal (Scaled.ofDecimal x).mantissa).log10) :=
  if_neg (not_le.2 h)

namespace Fixed

variable [Binary64.Elementary] {x : Fixed} {y : Binary64}

theorem log10_eq (hx : 0 < x.units) : x.toDecimal.log10 =
    .ok (Binary64.ofInt (Scaled.ofDecimal x.toDecimal).exponent +
      (Binary64.ofDecimal (Scaled.ofDecimal x.toDecimal).mantissa).log10) :=
  Decimal.log10_eq_ok hx

theorem log10Fixed_eq (hx : 0 < x.units) : x.toDecimal.log10Fixed =
    .ok (.ofDecimal (Binary64.ofInt (Scaled.ofDecimal x.toDecimal).exponent +
      (Binary64.ofDecimal (Scaled.ofDecimal x.toDecimal).mantissa).log10).shortest) := by
  rw [Decimal.log10Fixed, log10_eq hx]
  rfl

-- Of the positive numbers in fixed point only one has the logarithm zero.
def LogZeroOnlyAtOne : Prop :=
  ∀ (x : Fixed) (y : Binary64), 0 < x.units → x.toDecimal.log10 = .ok y → y.toRat = 0 → x = .one

namespace LogZeroOnlyAtOne

theorem coefficient_ne_zero (hz : LogZeroOnlyAtOne) (hx : 0 < x.units) (h : x ≠ .one)
    (hy : x.toDecimal.log10 = .ok y) : y.shortest.coefficient ≠ 0 :=
  Binary64.coefficient_shortest_ne_zero fun hs => h (hz x y hx hy (Binary64.toRat_eq_zero.2 hs))

-- Euler's number lies between one and ten, so that its logarithm is that of the binary number.
theorem coefficient_log10E_ne_zero (hz : LogZeroOnlyAtOne) : Decimal.log10E.coefficient ≠ 0 := by
  refine Binary64.coefficient_shortest_ne_zero fun hs => ?_
  have he : Scaled.ofDecimal (toDecimal ⟨2718281828459045⟩) = ⟨Decimal.euler, 0⟩ := by
    rw [Scaled.ofDecimal, if_neg (by decide), if_neg (by decide)]
    rfl
  have hy : Binary64.ofInt 0 + (Binary64.ofDecimal Decimal.euler).log10 = Binary64.ofInt 0 := by
    refine Binary64.add_eq_ofInt ?_
    rw [Binary64.toRat_ofInt_zero, Binary64.toRat_eq_zero.2 hs, Int.cast_zero, add_zero]
  have hl := log10_eq (x := ⟨2718281828459045⟩) (by decide)
  rw [he, hy] at hl
  exact absurd (hz _ _ (by decide) hl Binary64.toRat_ofInt_zero) (by decide)

end LogZeroOnlyAtOne

end Fixed

end TermReduction
