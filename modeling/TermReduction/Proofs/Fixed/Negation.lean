import TermReduction.Fixed.Checked
import TermReduction.Proofs.Fixed.Value

/-!
The negation of fixed-point numbers, which keeps 28 significant digits and refuses what is too large.
It is exact on numbers that have no more digits than that.
-/

namespace TermReduction.Fixed

variable {x y : Fixed}

-- The greatest number of digits of a negative, decimal places included.
def negationDigits : Nat :=
  negationLimit.toNat + 1 + places

theorem units_neg (x : Fixed) :
    (-x).units = -(x.units.sign * leading negationPrecision x.units.natAbs) :=
  Int.neg_mul ..

theorem natAbs_units_neg (x : Fixed) :
    (-x).units.natAbs = leading negationPrecision x.units.natAbs := by
  rw [units_neg, Int.natAbs_neg, Int.natAbs_mul, Int.natAbs_natCast]
  by_cases hx : x.units = 0
  case pos => rw [hx, Int.natAbs_zero, leading_zero, Nat.mul_zero]
  case neg => rw [Int.natAbs_sign_of_ne_zero hx, Nat.one_mul]

theorem units_neg_eq_iff : (-x).units = -x.units ↔ HasDigits negationPrecision x.units.natAbs := by
  have hp : 0 < negationPrecision := by decide
  rw [← leading_eq_iff hp]
  constructor
  case mp =>
    intro h
    rw [← natAbs_units_neg, h, Int.natAbs_neg]
  case mpr =>
    intro h
    rw [units_neg, h, Int.sign_mul_natAbs]

theorem IsWhole.neg (h : x.IsWhole) : (-x).IsWhole := by
  have hd : tenTo places ∣ x.units.natAbs := Int.natCast_dvd.1 (Int.dvd_of_emod_eq_zero h)
  have hn : tenTo places ∣ (-x).units.natAbs := natAbs_units_neg x ▸ tenTo_dvd_leading hd
  exact Int.emod_eq_zero_of_dvd (Int.natCast_dvd.2 hn)

-- A negative differs from the opposite number by at most half a unit of its last digit.
theorem natAbs_neg_add_le (x : Fixed) :
    2 * tenTo (negationPrecision - 1) * ((-x).units + x.units).natAbs ≤ x.units.natAbs := by
  have hd : (-x).units + x.units =
      x.units.sign * (x.units.natAbs - leading negationPrecision x.units.natAbs) := by
    rw [units_neg, Int.mul_sub, Int.sign_mul_natAbs]
    omega
  rw [hd, Int.natAbs_mul]
  by_cases hx : x.units = 0
  case pos => simp [hx]
  case neg =>
    rw [Int.natAbs_sign_of_ne_zero hx, Nat.one_mul]
    exact natAbs_sub_leading_le (by decide) _

theorem negate_eq (x : Fixed) :
    x.negate = if (-x).units.natAbs < tenTo negationDigits then .ok (-x) else .error .overflow := by
  have h : negationLimit < (-x).toDecimal.leadingExponent ↔
      ¬(-x).units.natAbs < tenTo negationDigits := by
    rw [← digitCount_le_iff (by decide), Nat.not_le]
    show negationLimit < -places + digitCount (-x).units.natAbs - 1 ↔ _
    simp only [negationDigits, negationLimit, places]
    omega
  rw [negate]
  simp only [h, ite_not]

-- Powers of ten beyond the limit have no negative.
theorem negate_tenTo {n : Nat} (h : negationDigits ≤ n) : negate ⟨tenTo n⟩ = .error .overflow := by
  have hd : HasDigits negationPrecision (tenTo n) := ⟨1, n, (Nat.one_mul _).symm, by decide⟩
  have hu : (-(⟨tenTo n⟩ : Fixed)).units = -tenTo n := units_neg_eq_iff.2 hd
  rw [negate_eq, hu, Int.natAbs_neg, Int.natAbs_natCast, if_neg (Nat.not_lt.2 (tenTo_le h))]

theorem eq_neg_of_negate (h : x.negate = .ok y) : y = -x := by
  rw [negate_eq] at h
  split at h <;> cases h
  rfl

-- A number whose negative is its opposite: it has few significant digits and is not too large.
structure NegatesExactly (x : Fixed) : Prop where
  digits : HasDigits negationPrecision x.units.natAbs
  short  : x.units.natAbs < tenTo negationDigits

theorem NegatesExactly.negate_eq (h : x.NegatesExactly) : x.negate = .ok ⟨-x.units⟩ := by
  have hu : (-x).units = -x.units := units_neg_eq_iff.2 h.digits
  have hs : (-x).units.natAbs < tenTo negationDigits := by
    rw [hu, Int.natAbs_neg]
    exact h.short
  rw [Fixed.negate_eq, if_pos hs, ← hu]

theorem NegatesExactly.opposite (h : x.NegatesExactly) : NegatesExactly ⟨-x.units⟩ where
  digits := (Int.natAbs_neg x.units).symm ▸ h.digits
  short  := (Int.natAbs_neg x.units).symm ▸ h.short

-- What comes out of a negation is exact to negate again.
theorem negatesExactly_of_negate (h : x.negate = .ok y) : y.NegatesExactly := by
  rw [negate_eq] at h
  split at h
  case isTrue hs =>
    cases h
    exact ⟨natAbs_units_neg x ▸ hasDigits_leading (by decide) _, hs⟩
  case isFalse => contradiction

theorem abs_add_le_of_negate (h : x.negate = .ok y) :
    2 * tenTo (negationPrecision - 1) * |y.toRat + x.toRat| ≤ |x.toRat| := by
  have hu : ((2 * tenTo (negationPrecision - 1) * (y.units + x.units).natAbs : Nat) : Rat) ≤
      x.units.natAbs :=
    Nat.cast_le.2 (eq_neg_of_negate h ▸ natAbs_neg_add_le x)
  push_cast [Nat.cast_natAbs, Int.cast_abs] at hu
  rw [toRat, toRat, ← add_div, abs_div, abs_div, abs_of_pos unitsPerOne_pos, ← mul_div_assoc]
  exact div_le_div_of_nonneg_right hu unitsPerOne_pos.le

theorem negatesExactly_of_toRat (h : x.negate = .ok y) (hy : y.toRat = -x.toRat) :
    x.NegatesExactly := by
  rw [← toRat_opposite, toRat_eq_iff] at hy
  have hx : x = ⟨-y.units⟩ := by rw [hy, Int.neg_neg]
  exact hx ▸ (negatesExactly_of_negate h).opposite

end TermReduction.Fixed
