import Mathlib.Data.Rat.Floor
import TermReduction.Proofs.Decimal.Value
import TermReduction.Proofs.Fixed.Value

/-!
Rounding to fixed point as a function of the value: every number is taken to the nearest multiple of
10⁻¹⁵, halves away from zero, however it is represented.
-/

namespace TermReduction

-- The integer nearest to a rational number, halves away from zero.
def roundAway (q : Rat) : Int :=
  if 0 ≤ q then ⌊q + 1 / 2⌋ else -⌊-q + 1 / 2⌋

theorem roundAway_of_nonneg {q : Rat} (h : 0 ≤ q) : roundAway q = ⌊q + 1 / 2⌋ :=
  if_pos h

theorem roundAway_neg (q : Rat) : roundAway (-q) = -roundAway q := by
  rcases lt_trichotomy q 0 with h | rfl | h
  · rw [roundAway, roundAway, if_pos (by linarith), if_neg (by linarith), neg_neg]
  · norm_num [roundAway]
  · rw [roundAway, roundAway, if_neg (by linarith), if_pos h.le, neg_neg]

theorem roundAway_intCast (n : Int) : roundAway n = n := by
  have h (m : Int) : ⌊(m + 1 / 2 : Rat)⌋ = m := by
    rw [Int.floor_eq_iff]
    constructor <;> linarith
  unfold roundAway
  split
  case isTrue  => exact h n
  case isFalse => rw [← Int.cast_neg, h, neg_neg]

-- What is negative stays so unless it is above the half that is rounded away from zero.
theorem roundAway_neg_iff {q : Rat} : roundAway q < 0 ↔ 2 * q ≤ -1 := by
  unfold roundAway
  split
  case isTrue h  =>
    have : 0 ≤ ⌊q + 1 / 2⌋ := Int.floor_nonneg.2 (by linarith)
    constructor <;> intro <;> (exfalso; linarith)
  case isFalse h =>
    rw [neg_lt_zero, Int.floor_pos]
    constructor <;> intro <;> linarith

theorem roundAway_mono {p q : Rat} (h : p ≤ q) : roundAway p ≤ roundAway q := by
  unfold roundAway
  split <;> split
  case isTrue.isTrue           => exact Int.floor_mono (by linarith)
  case isTrue.isFalse hp hq    => exact absurd (hp.trans h) hq
  case isFalse.isTrue hp hq    =>
    have h₁ : 0 ≤ ⌊-p + 1 / 2⌋ := Int.floor_nonneg.2 (by linarith)
    have h₂ : 0 ≤ ⌊q + 1 / 2⌋ := Int.floor_nonneg.2 (by linarith)
    omega
  case isFalse.isFalse         => exact Int.neg_le_neg (Int.floor_mono (by linarith))

theorem abs_roundAway_sub_le (q : Rat) : 2 * |roundAway q - q| ≤ 1 := by
  have h (x : Rat) : 2 * |(⌊x + 1 / 2⌋ : Rat) - x| ≤ 1 := by
    have h₁ := Int.floor_le (x + 1 / 2)
    have h₂ := Int.lt_floor_add_one (x + 1 / 2)
    have ha : |(⌊x + 1 / 2⌋ : Rat) - x| ≤ 1 / 2 := abs_le.2 ⟨by linarith, by linarith⟩
    linarith
  unfold roundAway
  split
  case isTrue  => exact h q
  case isFalse =>
    rw [Int.cast_neg, ← neg_add', abs_neg, ← sub_neg_eq_add]
    exact h (-q)

theorem roundHalfAway_natCast (n : Nat) {d : Nat} (hd : 0 < d) :
    roundHalfAway n d = ⌊(n / d + 1 / 2 : Rat)⌋ := by
  have hq : (n / d + 1 / 2 : Rat) = (2 * n + d : Nat) / (2 * d : Nat) := by
    have : (d : Rat) ≠ 0 := by positivity
    push_cast
    field_simp
  rw [hq, Rat.floor_natCast_div_natCast, ← Int.natCast_ediv]
  rcases Nat.eq_zero_or_pos n with rfl | hn
  · have hz : (2 * 0 + d) / (2 * d) = 0 := Nat.div_eq_of_lt (by omega)
    rw [hz]
    exact roundHalfAway_zero_left d
  · exact roundHalfAway_of_pos (Int.natCast_pos.2 hn) (Int.natCast_pos.2 hd)

theorem roundHalfAway_eq (n : Int) {d : Int} (hd : d ≠ 0) : roundHalfAway n d = roundAway (n / d) := by
  have h (m k : Nat) (hk : 0 < k) : roundHalfAway m k = roundAway (m / k) := by
    rw [roundHalfAway_natCast m hk, roundAway_of_nonneg (by positivity)]
  have hp (k : Nat) (hk : 0 < k) : roundHalfAway n k = roundAway (n / k) := by
    obtain ⟨m, rfl | rfl⟩ := n.eq_nat_or_neg
    case inl => simpa using h m k hk
    case inr => simpa [roundHalfAway_neg_left, neg_div, roundAway_neg] using h m k hk
  obtain ⟨k, rfl | rfl⟩ := d.eq_nat_or_neg
  case inl => simpa using hp k (by omega)
  case inr => simpa [roundHalfAway_neg_right, div_neg, roundAway_neg] using hp k (by omega)

namespace Fixed

-- The fixed-point number nearest to a rational number, halves away from zero.
def nearest (q : Rat) : Fixed :=
  ⟨roundAway (q * unitsPerOne)⟩

theorem nearest_toRat (x : Fixed) : nearest x.toRat = x := by
  rw [nearest, toRat, div_mul_cancel₀ _ unitsPerOne_pos.ne', roundAway_intCast]

theorem nearest_mono {p q : Rat} (h : p ≤ q) : (nearest p).toRat ≤ (nearest q).toRat := by
  have hu : p * unitsPerOne ≤ q * unitsPerOne := mul_le_mul_of_nonneg_right h unitsPerOne_pos.le
  rw [toRat, toRat]
  exact div_le_div_of_nonneg_right (Int.cast_le.2 (roundAway_mono hu)) unitsPerOne_pos.le

-- The rounding moves a number by at most half a unit.
theorem abs_nearest_sub_le (q : Rat) : 2 * unitsPerOne * |(nearest q).toRat - q| ≤ 1 := by
  have h : (unitsPerOne : Rat) * |(nearest q).toRat - q| =
      |roundAway (q * unitsPerOne) - q * unitsPerOne| := by
    rw [← abs_of_pos unitsPerOne_pos, ← abs_mul, abs_of_pos unitsPerOne_pos, mul_sub, toRat, nearest,
      mul_div_cancel₀ _ unitsPerOne_pos.ne', mul_comm q]
  rw [mul_assoc, h]
  exact abs_roundAway_sub_le _

theorem ofRatio_eq (n : Int) {d : Int} (hd : d ≠ 0) : ofRatio n d = nearest (n / d) := by
  rw [ofRatio, nearest, roundHalfAway_eq _ hd, div_mul_eq_mul_div]
  push_cast
  rfl

theorem toRat_toDecimal (x : Fixed) : x.toDecimal.toRat = x.toRat := by
  have hu : (10 : Rat) ^ (-15 : Int) = (unitsPerOne : Rat)⁻¹ := by norm_num [unitsPerOne]
  rw [toRat, div_eq_mul_inv, ← hu]
  rfl

theorem ofDecimal_eq (x : Decimal) : ofDecimal x = nearest x.toRat := by
  have hx : x.toRat * unitsPerOne = x.coefficient * 10 ^ (x.exponent + places) := by
    rw [Decimal.toRat, zpow_add₀ (by decide), ← mul_assoc, unitsPerOne_eq]
    norm_num [tenTo, places]
  rw [nearest, hx, ofDecimal]
  generalize x.exponent + places = e
  show (if 0 ≤ e then (⟨scaleUp x.coefficient e.toNat⟩ : Fixed)
    else ⟨roundShift x.coefficient (-e).toNat⟩) = _
  split
  case isTrue he  =>
    rw [← cast_tenTo he, ← Int.cast_natCast, ← Int.cast_mul, roundAway_intCast, scaleUp_eq]
  case isFalse he =>
    have hd : ((tenTo (-e).toNat : Nat) : Int) ≠ 0 := Int.natCast_ne_zero.2 (tenTo_pos _).ne'
    rw [roundShift_eq, roundHalfAway_eq _ hd, Int.cast_natCast, cast_tenTo (by omega), zpow_neg,
      div_inv_eq_mul]

theorem ofQuotient_eq (x : Decimal) {y : Decimal} (hy : y.coefficient ≠ 0) :
    ofQuotient x y = nearest (x.toRat / y.toRat) := by
  rw [ofQuotient]
  generalize he : x.exponent - y.exponent = e
  show (if x.coefficient = 0 then zero else ofRatio (x.coefficient * tenTo e.toNat)
    (y.coefficient * tenTo (-e).toNat)) = _
  split
  case isTrue hx =>
    rw [Decimal.toRat_eq_zero.2 hx, zero_div, ← zero_div (unitsPerOne : Rat), ← Int.cast_zero]
    exact (nearest_toRat zero).symm
  case isFalse   =>
    have hd : y.coefficient * (tenTo (-e).toNat : Nat) ≠ 0 :=
      Int.mul_ne_zero hy (Int.natCast_ne_zero.2 (tenTo_pos _).ne')
    rw [ofRatio_eq _ hd, Int.cast_mul, Int.cast_mul, Int.cast_natCast, Int.cast_natCast, mul_div_mul_comm,
      ← ten_zpow_eq_div, ← he, zpow_sub₀ (by decide), div_mul_div_comm, Decimal.toRat, Decimal.toRat]

end Fixed

-- The rounding of a number depends on its value alone.
theorem Number.toFixed_eq {v : Number} (hv : v.WellFormed) : v.toFixed = .nearest v.toRat := by
  cases v
  case integer n  => rw [toFixed, toRat, ← Fixed.toRat_ofInt, Fixed.nearest_toRat]
  case rational q => exact Fixed.ofRatio_eq q.numerator (Fraction.Reduced.ne_zero hv)
  case real x     => exact (Fixed.nearest_toRat x).symm

end TermReduction
