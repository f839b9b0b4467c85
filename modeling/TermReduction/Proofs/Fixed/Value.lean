import Mathlib.Algebra.Order.Field.Basic
import TermReduction.Number.Basic
import TermReduction.Proofs.Fraction.Value
import TermReduction.Proofs.Rounding

/-!
The values of fixed-point numbers. Whole ones are integers, sums of their decimals are the sums of
their units, and what is below half a unit is rounded to zero.
-/

namespace TermReduction

namespace Fixed

variable {x y : Fixed}

theorem unitsPerOne_pos : (0 : Rat) < unitsPerOne := by
  decide

theorem toRat_eq_iff : x.toRat = y.toRat ↔ x.units = y.units := by
  rw [toRat, toRat, div_left_inj' unitsPerOne_pos.ne', Int.cast_inj]

theorem toRat_opposite (x : Fixed) : toRat ⟨-x.units⟩ = -x.toRat := by
  rw [toRat, toRat, Int.cast_neg, neg_div]

theorem toRat_ofInt (n : Int) : (ofInt n).toRat = n := by
  rw [toRat, ofInt, Int.cast_mul, Int.cast_natCast, mul_div_cancel_right₀ _ unitsPerOne_pos.ne']

theorem IsWhole.ofInt_truncate (h : x.IsWhole) : ofInt x.truncate = x := by
  have hd : (unitsPerOne : Int) ∣ x.units := Int.dvd_of_emod_eq_zero h
  rw [ofInt, truncate, Int.tdiv_mul_cancel hd]

theorem isWhole_iff : x.IsWhole ↔ ∃ n : Int, x.toRat = n := by
  constructor
  case mp =>
    intro h
    rw [← h.ofInt_truncate]
    exact ⟨x.truncate, toRat_ofInt _⟩
  case mpr =>
    rintro ⟨n, h⟩
    rw [← toRat_ofInt, toRat_eq_iff] at h
    rw [IsWhole, h]
    exact ofInt_isWhole n

theorem isWhole_opposite : IsWhole ⟨-x.units⟩ ↔ x.IsWhole := by
  simp only [IsWhole, unitsPerOne]
  omega

theorem ofDecimal_scaled (c : Int) : ofDecimal (.scaled c (-places)) = ⟨c⟩ := by
  show (⟨scaleUp c 0⟩ : Fixed) = ⟨c⟩
  rw [scaleUp_eq]
  exact congrArg mk (Int.mul_one c)

-- Both decimals are over one power of ten.
theorem toDecimal_add (x y : Fixed) :
    x.toDecimal + y.toDecimal = .scaled (x.units + y.units) (-places) := by
  show Decimal.scaled (scaleUp x.units 0 + scaleUp y.units 0) (-places) = _
  rw [scaleUp_eq, scaleUp_eq]
  congr 2 <;> exact Int.mul_one _

theorem units_eq_zero_iff : x.units = 0 ↔ 2 * unitsPerOne * |x.toRat| < 1 := by
  have h : 2 * unitsPerOne * |x.toRat| = (2 * x.units.natAbs : Nat) := by
    rw [toRat, abs_div, abs_of_pos unitsPerOne_pos, mul_assoc, mul_div_cancel₀ _ unitsPerOne_pos.ne']
    push_cast [Nat.cast_natAbs, Int.cast_abs]
    rfl
  rw [h, Nat.cast_lt_one]
  omega

-- What is less than half a unit is rounded to nothing.
theorem ofRatio_eq_zero_iff {n d : Int} (hd : d ≠ 0) :
    (ofRatio n d).units = 0 ↔ 2 * unitsPerOne * |(n / d : Rat)| < 1 := by
  have hp : (0 : Rat) < |(d : Rat)| := abs_pos.2 (Int.cast_ne_zero.2 hd)
  rw [ofRatio, roundHalfAway_eq_zero_iff hd, abs_div, mul_div_assoc', div_lt_one hp,
    ← Nat.cast_lt (α := Rat)]
  push_cast [Nat.cast_natAbs, Int.cast_abs, abs_mul]
  rw [abs_of_pos unitsPerOne_pos, mul_assoc, mul_comm |(n : Rat)|]

end Fixed

theorem Number.toRat_ofFixed (x : Fixed) : (ofFixed x).toRat = x.toRat := by
  unfold ofFixed
  split
  case isTrue h  =>
    conv => rhs; rw [← h.ofInt_truncate, Fixed.toRat_ofInt]
    rfl
  case isFalse   => rfl

end TermReduction
