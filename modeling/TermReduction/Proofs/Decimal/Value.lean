import TermReduction.Decimal.Checked
import TermReduction.Proofs.Power
import TermReduction.Proofs.Rounding

/-!
The values of decimals. Sums and products of decimals have the sums and products of their values, and the
leading digit tells a decimal's order of magnitude.
-/

namespace TermReduction.Decimal

variable {x y : Decimal}

theorem ten_zpow_pos (k : Int) : (0 : Rat) < 10 ^ k :=
  zpow_pos (by decide) k

theorem toRat_coefficientAt {e : Int} (h : e ≤ x.exponent) :
    (x.coefficientAt e : Rat) * 10 ^ e = x.toRat := by
  rw [coefficientAt, scaleUp_eq, Int.cast_mul, Int.cast_natCast, cast_tenTo (by omega), mul_assoc,
    ← zpow_add₀ (by decide), sub_add_cancel, toRat]

theorem toRat_add (x y : Decimal) : (x + y).toRat = x.toRat + y.toRat := by
  show ((x.coefficientAt _ + y.coefficientAt _ : Int) : Rat) * 10 ^ min x.exponent y.exponent = _
  rw [Int.cast_add, add_mul, toRat_coefficientAt (min_le_left ..), toRat_coefficientAt (min_le_right ..)]

theorem toRat_neg (x : Decimal) : (-x).toRat = -x.toRat := by
  show ((-x.coefficient : Int) : Rat) * 10 ^ x.exponent = -x.toRat
  rw [Int.cast_neg, neg_mul, toRat]

theorem toRat_sub (x y : Decimal) : (x - y).toRat = x.toRat - y.toRat := by
  show (x + -y).toRat = x.toRat - y.toRat
  rw [toRat_add, toRat_neg, sub_eq_add_neg]

theorem toRat_mul (x y : Decimal) : (x * y).toRat = x.toRat * y.toRat := by
  show ((x.coefficient * y.coefficient : Int) : Rat) * 10 ^ (x.exponent + y.exponent) = _
  rw [toRat, toRat, Int.cast_mul, zpow_add₀ (by decide), mul_mul_mul_comm]

theorem toRat_shift (x : Decimal) (k : Int) : (x.shift k).toRat = x.toRat * 10 ^ k := by
  show (x.coefficient : Rat) * 10 ^ (x.exponent + k) = x.toRat * 10 ^ k
  rw [zpow_add₀ (by decide), toRat, mul_assoc]

theorem toRat_ofInt (n : Int) : (ofInt n).toRat = n := by
  show (n : Rat) * 10 ^ (0 : Int) = n
  rw [zpow_zero, mul_one]

theorem toRat_eq_zero : x.toRat = 0 ↔ x.coefficient = 0 := by
  rw [toRat, mul_eq_zero, Int.cast_eq_zero, or_iff_left (ten_zpow_pos _).ne']

theorem coefficient_pos (h : 0 < x.toRat) : 0 < x.coefficient := by
  exact_mod_cast pos_of_mul_pos_left h (ten_zpow_pos _).le

theorem toRat_pos (h : 0 < x.coefficient) : 0 < x.toRat :=
  mul_pos (Int.cast_pos.2 h) (ten_zpow_pos _)

theorem coefficient_pos_of_le (hx : 0 < x.coefficient) (h : x.toRat ≤ y.toRat) : 0 < y.coefficient :=
  coefficient_pos ((toRat_pos hx).trans_le h)

theorem natAbs_coefficient (h : 0 ≤ x.coefficient) : (x.coefficient.natAbs : Rat) = x.coefficient := by
  rw [← Int.cast_natCast, Int.natAbs_of_nonneg h]

theorem toRat_lt (h : 0 ≤ x.coefficient) : x.toRat < 10 ^ (x.leadingExponent + 1) := by
  have hd : (x.coefficient.natAbs : Rat) < 10 ^ (digitCount x.coefficient.natAbs : Int) := by
    rw [zpow_natCast]
    exact_mod_cast lt_tenTo_digitCount x.coefficient.natAbs
  have he : x.leadingExponent + 1 = digitCount x.coefficient.natAbs + x.exponent := by
    rw [leadingExponent]
    omega
  rw [he, zpow_add₀ (by decide), toRat, ← natAbs_coefficient h]
  exact mul_lt_mul_of_pos_right hd (ten_zpow_pos _)

theorem le_toRat (h : 0 < x.coefficient) : 10 ^ x.leadingExponent ≤ x.toRat := by
  have hn : 0 < x.coefficient.natAbs := Int.natAbs_pos.2 h.ne'
  have hd : (10 : Rat) ^ ((digitCount x.coefficient.natAbs - 1 : Nat) : Int) ≤ x.coefficient.natAbs := by
    rw [zpow_natCast]
    exact_mod_cast tenTo_digitCount_le hn
  have he : x.leadingExponent = (digitCount x.coefficient.natAbs - 1 : Nat) + x.exponent := by
    have := digitCount_pos x.coefficient.natAbs
    rw [leadingExponent]
    omega
  rw [he, zpow_add₀ (by decide), toRat, ← natAbs_coefficient h.le]
  exact mul_le_mul_of_nonneg_right hd (ten_zpow_pos _).le

theorem leadingExponent_mono (hx : 0 < x.coefficient) (h : x.toRat ≤ y.toRat) :
    x.leadingExponent ≤ y.leadingExponent := by
  have hlt : (10 : Rat) ^ x.leadingExponent < 10 ^ (y.leadingExponent + 1) :=
    (le_toRat hx).trans_lt (h.trans_lt (toRat_lt (coefficient_pos_of_le hx h).le))
  exact Int.lt_add_one_iff.1 ((zpow_lt_zpow_iff_right₀ (by decide)).1 hlt)

theorem leadingExponent_nonneg (h : 1 ≤ x.toRat) : 0 ≤ x.leadingExponent := by
  have hc := coefficient_pos (one_pos.trans_le h)
  have hlt : (10 : Rat) ^ (0 : Int) < 10 ^ (x.leadingExponent + 1) := by
    rw [zpow_zero]
    exact h.trans_lt (toRat_lt hc.le)
  exact Int.lt_add_one_iff.1 ((zpow_lt_zpow_iff_right₀ (by decide)).1 hlt)

-- The power of ten that a decimal is, is that of its leading digit.
theorem leadingExponent_eq {k : Int} (h : x.toRat = 10 ^ k) : x.leadingExponent = k := by
  have hc := coefficient_pos (h ▸ ten_zpow_pos k)
  have h₁ := le_toRat hc
  have h₂ := toRat_lt hc.le
  rw [h] at h₁ h₂
  have h₁ := (zpow_le_zpow_iff_right₀ (by decide)).1 h₁
  have h₂ := (zpow_lt_zpow_iff_right₀ (by decide)).1 h₂
  omega

-- The power of ten of the leading digit is the greatest that does not exceed the number.
theorem le_leadingExponent_iff (h : x.coefficient ≠ 0) {k : Int} :
    k ≤ x.leadingExponent ↔ 10 ^ k ≤ |x.toRat| := by
  have ha : |x.toRat| = (scaled x.coefficient.natAbs x.exponent).toRat := by
    rw [toRat, abs_mul, abs_of_pos (ten_zpow_pos _), ← Int.cast_abs, Int.abs_eq_natAbs]
    rfl
  have hc : 0 < (scaled x.coefficient.natAbs x.exponent).coefficient :=
    Int.natCast_pos.2 (Int.natAbs_pos.2 h)
  have h₁ := le_toRat hc
  have h₂ := toRat_lt hc.le
  rw [← ha] at h₁ h₂
  constructor
  case mp  => exact fun hk => (zpow_le_zpow_right₀ (by decide) hk).trans h₁
  case mpr => exact fun hk => Int.lt_add_one_iff.1 ((zpow_lt_zpow_iff_right₀ (by decide)).1 (hk.trans_lt h₂))

theorem leadingExponent_congr (hx : x.coefficient ≠ 0) (h : x.toRat = y.toRat) :
    x.leadingExponent = y.leadingExponent := by
  have hy : y.coefficient ≠ 0 := by rwa [Ne, ← toRat_eq_zero, ← h, toRat_eq_zero]
  apply le_antisymm
  · rw [le_leadingExponent_iff hy, ← h, ← le_leadingExponent_iff hx]
  · rw [le_leadingExponent_iff hx, h, ← le_leadingExponent_iff hy]

theorem lt_iff : x < y ↔ x.toRat < y.toRat := by
  rw [← toRat_coefficientAt (min_le_left x.exponent y.exponent),
    ← toRat_coefficientAt (min_le_right x.exponent y.exponent),
    mul_lt_mul_iff_of_pos_right (ten_zpow_pos _), Int.cast_lt]
  exact Iff.rfl

theorem truncate_eq {n : Int} (h : x.toRat = n) : x.truncate = n := by
  unfold truncate
  split
  case isTrue he  =>
    rw [toRat, ← cast_tenTo he] at h
    rw [scaleUp_eq]
    exact_mod_cast h
  case isFalse he =>
    have hp : ((tenTo (-x.exponent).toNat : Nat) : Rat) ≠ 0 := Nat.cast_ne_zero.2 (tenTo_pos _).ne'
    have hc : x.coefficient = n * tenTo (-x.exponent).toNat := by
      rw [toRat, ← Int.neg_neg x.exponent, zpow_neg, ← cast_tenTo (by omega), mul_inv_eq_iff_eq_mul₀ hp] at h
      exact_mod_cast h
    rw [truncateShift_eq, hc, Int.mul_tdiv_cancel _ (Int.natCast_ne_zero.2 (tenTo_pos _).ne')]

theorem powerOfTen_eq {k : Int} (h : (scaled 1 k).InRange) : powerOfTen k = .ok (scaled 1 k) := by
  have hd : 0 < digitCount (scaled 1 k).coefficient.natAbs := digitCount_pos _
  have hk : ¬greatestShift < k.natAbs := by
    obtain ⟨h₁, h₂⟩ := h
    simp only [leadingExponent, leastExponent, greatestExponent, precision, greatestShift, scaled] at *
    omega
  rw [powerOfTen, if_neg hk, fit_of_inRange h]

-- The value as a quotient of natural numbers.
theorem toRat_eq_div (h : 0 ≤ x.coefficient) : x.toRat =
    (x.coefficient.toNat * tenTo x.exponent.toNat : Nat) / (tenTo (-x.exponent).toNat : Nat) := by
  have hc : (x.coefficient.toNat : Rat) = x.coefficient := by
    rw [← Int.cast_natCast, Int.toNat_of_nonneg h]
  rw [toRat, ten_zpow_eq_div, Nat.cast_mul, hc, mul_div_assoc]

end TermReduction.Decimal
