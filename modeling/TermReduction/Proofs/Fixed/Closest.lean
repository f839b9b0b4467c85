import TermReduction.Fixed.Checked
import TermReduction.Proofs.Fixed.Nearest

/-!
All roundings to fixed point are one function of the value. It takes every number to the fixed-point
number that is closest to it, and of two that are equally close to the one that is farther from zero.
-/

namespace TermReduction

section Integers

variable {q : Rat} {n : Int}

-- Any other integer is at least half a unit away.
theorem abs_roundAway_sub_le_abs (q : Rat) (n : Int) : |roundAway q - q| ≤ |n - q| := by
  by_cases hn : n = roundAway q
  case pos => rw [hn]
  case neg =>
    have h₁ : (1 : Rat) ≤ |(n : Rat) - roundAway q| := by
      exact_mod_cast Int.one_le_abs (sub_ne_zero.2 hn)
    have h₂ := abs_sub_le (n : Rat) q (roundAway q)
    have h₃ := abs_roundAway_sub_le q
    rw [abs_sub_comm q] at h₂
    linarith

-- Of two integers around a half it is the one on the far side from zero.
theorem le_roundAway_of_abs_sub_eq (hq : 0 ≤ q) (h : |n - q| = |roundAway q - q|) :
    |n| ≤ |roundAway q| := by
  have h₁ := Int.floor_le (q + 1 / 2)
  have h₂ := Int.lt_floor_add_one (q + 1 / 2)
  have h₃ : 0 ≤ ⌊q + 1 / 2⌋ := Int.floor_nonneg.2 (by linarith)
  rw [roundAway_of_nonneg hq] at h ⊢
  generalize ⌊q + 1 / 2⌋ = r at h h₁ h₂ h₃ ⊢
  rcases abs_eq_abs.1 h with h | h
  · have hn : n = r := by exact_mod_cast (by linarith : (n : Rat) = r)
    rw [hn]
  · -- the other side of the half: one less, and not below zero
    have hn : (r : Rat) - 1 ≤ n := by linarith
    have hn' : (n : Rat) < r + 1 := by linarith
    have hs : (0 : Rat) ≤ n + r := by linarith
    norm_cast at hn hn' hs
    rw [abs_of_nonneg h₃, abs_le]
    omega

theorem abs_le_abs_roundAway (h : |n - q| = |roundAway q - q|) : |n| ≤ |roundAway q| := by
  rcases le_total 0 q with hq | hq
  · exact le_roundAway_of_abs_sub_eq hq h
  · have h₁ : |((-n : Int) : Rat) - -q| = |roundAway (-q) - -q| := by
      rw [roundAway_neg]
      push_cast
      rw [← neg_sub', abs_neg, h, ← neg_sub', abs_neg]
    have h₂ := le_roundAway_of_abs_sub_eq (neg_nonneg.2 hq) h₁
    rwa [roundAway_neg, abs_neg, abs_neg] at h₂

end Integers

namespace Fixed

variable {x y : Fixed} {p q : Rat}

-- No fixed-point number is closer to `q` than `x` is, and none that is as close is farther from zero.
structure IsNearest (x : Fixed) (q : Rat) : Prop where
  closest : ∀ y : Fixed, |x.toRat - q| ≤ |y.toRat - q|
  away    : ∀ y : Fixed, |y.toRat - q| = |x.toRat - q| → |y.toRat| ≤ |x.toRat|

theorem abs_toRat_sub (x : Fixed) (q : Rat) :
    |x.toRat - q| = |x.units - q * unitsPerOne| / unitsPerOne := by
  have h : x.toRat - q = (x.units - q * unitsPerOne) / unitsPerOne := by
    rw [toRat, sub_div, mul_div_cancel_right₀ _ unitsPerOne_pos.ne']
  rw [h, abs_div, abs_of_pos unitsPerOne_pos]

theorem abs_toRat (x : Fixed) : |x.toRat| = |x.units| / unitsPerOne := by
  rw [toRat, abs_div, abs_of_pos unitsPerOne_pos, Int.cast_abs]

theorem isNearest_nearest (q : Rat) : (nearest q).IsNearest q where
  closest y := by
    rw [abs_toRat_sub, abs_toRat_sub]
    exact div_le_div_of_nonneg_right (abs_roundAway_sub_le_abs _ _) unitsPerOne_pos.le
  away y h := by
    rw [abs_toRat_sub, abs_toRat_sub, div_left_inj' unitsPerOne_pos.ne'] at h
    rw [abs_toRat, abs_toRat]
    exact div_le_div_of_nonneg_right (Int.cast_le.2 (abs_le_abs_roundAway h)) unitsPerOne_pos.le

-- Two numbers that are equally close and equally far from zero can only differ in sign, and then
-- they are as close to zero as to each other.
theorem IsNearest.unique (hx : x.IsNearest q) (hy : y.IsNearest q) : x = y := by
  have hd : |x.toRat - q| = |y.toRat - q| := le_antisymm (hx.closest y) (hy.closest x)
  have ha : |x.toRat| = |y.toRat| := le_antisymm (hy.away x hd) (hx.away y hd.symm)
  have ht : x.toRat = y.toRat := by
    rcases abs_eq_abs.1 ha with h | h
    case inl => exact h
    case inr =>
      rcases abs_eq_abs.1 hd with h' | h'
      case inl => linarith
      case inr =>
        have hq : q = 0 := by linarith
        have hz := hx.closest (ofInt 0)
        rw [hq, toRat_ofInt, Int.cast_zero, sub_zero, sub_zero, abs_zero] at hz
        have hx₀ : x.toRat = 0 := abs_nonpos_iff.1 hz
        linarith
  exact congrArg Fixed.mk (toRat_eq_iff.1 ht)

theorem isNearest_iff : x.IsNearest q ↔ x = nearest q :=
  ⟨fun h => h.unique (isNearest_nearest q), fun h => h ▸ isNearest_nearest q⟩

theorem nearest_neg (q : Rat) : (nearest (-q)).toRat = -(nearest q).toRat := by
  rw [← toRat_opposite, nearest, nearest, neg_mul, roundAway_neg]

theorem abs_nearest_sub_le_half (q : Rat) : |(nearest q).toRat - q| ≤ 1 / 2 / 10 ^ 15 := by
  have hu : (unitsPerOne : Rat) = 10 ^ 15 := by norm_num [unitsPerOne]
  have h := abs_nearest_sub_le q
  rw [hu] at h
  rw [le_div_iff₀ (by positivity)]
  linarith

theorem ratio_eq (n : Int) {d : Int} (hd : d ≠ 0) : ratio n d = .ok (nearest (n / d)) := by
  rw [ratio, if_neg hd, divideHalfAway_eq _ hd, ← ofRatio_eq n hd]
  rfl

theorem quotient_eq (x : Decimal) {y : Decimal} (hy : y.toRat ≠ 0) :
    quotient x y = .ok (nearest (x.toRat / y.toRat)) := by
  have hc : y.coefficient ≠ 0 := mt Decimal.toRat_eq_zero.2 hy
  rw [quotient, if_neg hc, ofQuotient_eq x hc]

-- The power of ten from which on a number has too many digits down to the last place.
def roundingLimit : Int :=
  Decimal.precision - places

theorem isTooLong_iff (x : Decimal) : (x.coefficient ≠ 0 ∧ Decimal.precision ≤ x.leadingExponent + places) ↔
    10 ^ roundingLimit ≤ |x.toRat| := by
  by_cases hx : x.coefficient = 0
  case pos =>
    have hp : ¬(10 : Rat) ^ roundingLimit ≤ |x.toRat| := by
      rw [Decimal.toRat_eq_zero.2 hx, abs_zero]
      exact not_le.2 (Decimal.ten_zpow_pos _)
    exact iff_of_false (fun h => h.1 hx) hp
  case neg =>
    rw [and_iff_right hx, ← Decimal.le_leadingExponent_iff hx, roundingLimit, sub_le_iff_le_add]

theorem round_eq (x : Decimal) : round x =
    if 10 ^ roundingLimit ≤ |x.toRat| then .error .outOfRange else .ok (nearest x.toRat) := by
  rw [round, ofDecimal_eq]
  exact if_congr (isTooLong_iff x) rfl rfl

theorem round_eq_ok {x : Decimal} (h : |x.toRat| < 10 ^ roundingLimit) : round x = .ok (nearest x.toRat) := by
  rw [round_eq, if_neg (not_le.2 h)]

-- The quotient of two integers, the quotient of two decimals and a decimal itself are rounded alike: to
-- the nearest multiple of 10⁻¹⁵, the one that is farther from zero if there are two. Only decimals with
-- too many digits are refused.
theorem roundings_agree :
    (∀ (x : Fixed) (q : Rat), x = nearest q ↔ x.IsNearest q) ∧
    (∀ n d : Int, d ≠ 0 → ratio n d = .ok (nearest (n / d))) ∧
    (∀ x y : Decimal, y.toRat ≠ 0 → quotient x y = .ok (nearest (x.toRat / y.toRat))) ∧
    (∀ x : Decimal, |x.toRat| < 10 ^ roundingLimit →
      round x = .ok (nearest x.toRat) ∧ round x = ratio x.toRat.num x.toRat.den) ∧
    (∀ x : Decimal, 10 ^ roundingLimit ≤ |x.toRat| → round x = .error .outOfRange) ∧
    (∀ p q : Rat, p ≤ q → (nearest p).toRat ≤ (nearest q).toRat) ∧
    (∀ q : Rat, (nearest (-q)).toRat = -(nearest q).toRat) ∧
    (∀ q : Rat, nearest (nearest q).toRat = nearest q) ∧
    ∀ q : Rat, |(nearest q).toRat - q| ≤ 1 / 2 / 10 ^ 15 := by
  refine ⟨fun _ _ => isNearest_iff.symm, fun n _ => ratio_eq n, fun x _ => quotient_eq x, fun x hx => ?decimals,
    fun x hx => ?long, fun _ _ => nearest_mono, nearest_neg, fun q => nearest_toRat _, abs_nearest_sub_le_half⟩
  case decimals =>
    have hd : (x.toRat.den : Int) ≠ 0 := Int.natCast_ne_zero.2 x.toRat.den_ne_zero
    have hq : ((x.toRat.num : Rat) / (x.toRat.den : Int)) = x.toRat := by
      rw [Int.cast_natCast, Rat.num_div_den]
    exact ⟨round_eq_ok hx, by rw [round_eq_ok hx, ratio_eq _ hd, hq]⟩
  case long     => rw [round_eq, if_pos hx]

-- Halves of a unit, of either sign and in each of the ways.
theorem roundings_agree_halves :
    ratio 1 (-2000000000000000) = .ok ⟨-1⟩ ∧
    quotient (.scaled (-3) (-15)) (.ofInt 2) = .ok ⟨-2⟩ ∧
    round (.scaled (-25) (-16)) = .ok ⟨-3⟩ ∧
    round (.scaled (-25) (-16)) = ratio (-1) 400000000000000 := by
  obtain ⟨-, hratio, hquotient, hround, -⟩ := roundings_agree
  have hx : |(Decimal.scaled (-25) (-16)).toRat| < 10 ^ roundingLimit := by
    have h₁ : |(Decimal.scaled (-25) (-16)).toRat| < 1 := by decide +kernel
    exact h₁.trans_le (one_le_zpow₀ (by decide) (by decide))
  have hq : (Decimal.scaled (-25) (-16)).toRat = -1 / 400000000000000 := by decide +kernel
  obtain ⟨hr, hr'⟩ := hround _ hx
  rw [hq] at hr hr'
  refine ⟨?ratio, ?quotient, ?round, ?integers⟩
  case ratio    =>
    rw [hratio 1 _ (by decide)]
    decide +kernel
  case quotient =>
    rw [hquotient _ _ (by decide +kernel)]
    decide +kernel
  case round    =>
    rw [hr]
    decide +kernel
  case integers =>
    rw [hr']
    decide +kernel

-- A power of ten of one digit too many.
theorem round_of_many_digits :
    let x := Decimal.scaled 1 999999999999999984
    x.InRange ∧ round x = .error .outOfRange ∧ round x ≠ .ok (nearest x.toRat) := by
  intro x
  have hd : digitCount x.coefficient.natAbs = 1 := by
    rw [digitCount]
    rfl
  have hl : x.leadingExponent = 999999999999999984 := by
    rw [Decimal.leadingExponent, hd]
    rfl
  have hr : round x = .error .outOfRange := by
    rw [round, hl]
    exact if_pos ⟨by decide, by decide⟩
  refine ⟨⟨by decide, ?_⟩, hr, ?_⟩
  · rw [hl]
    decide
  · rw [hr]
    intro h
    cases h

end Fixed

end TermReduction
