import TermReduction.Proofs.Binary64.Logarithm
import TermReduction.Proofs.Logarithm

/-!
The rounded common logarithm of a decimal is zero at one only.
-/

namespace TermReduction

namespace Binary64

variable {x : Decimal}

theorem one_le_toRat_ofDecimal (h : 1 ≤ x.toRat) : 1 ≤ (ofDecimal x).toRat := by
  have h₁ : (Decimal.ofInt 1).toRat = (1 : Nat) := Decimal.toRat_ofInt 1
  have h₂ : ofDecimal (.ofInt 1) = ofInt 1 := ofDecimal_eq_ofInt Nat.one_pos h₁
  rw [Nat.cast_one] at h₁
  have hm := ofDecimal_mono h₁.ge (h₁.trans_le h)
  rwa [h₂, toRat_ofInt_one] at hm

theorem roundedLog10_ofDecimal_nonneg (h : 1 ≤ x.toRat) : 0 ≤ (ofDecimal x).roundedLog10.toRat :=
  roundedLog10_nonneg (one_le_toRat_ofDecimal h)

-- The least number above one in fixed point has a logarithm that is seen, and so have all above it.
theorem roundedLog10_ofDecimal_pos (h : 1 + 1 / 10 ^ 15 ≤ x.toRat) :
    0 < (ofDecimal x).roundedLog10.toRat := by
  have h₁ : (Decimal.scaled 1000000000000001 (-15)).toRat = 1 + 1 / 10 ^ 15 := by
    norm_num [Decimal.toRat, Decimal.scaled]
  have h₂ : (ofDecimal (.scaled 1000000000000001 (-15))).roundedLog10 = ⟨4889721167171366, -103⟩ := by
    decide +kernel
  have h₃ : (1 : Rat) ≤ 1 + 1 / 10 ^ 15 := by norm_num
  have hd := ofDecimal_mono (h₃.trans h₁.ge) (h₁.trans_le h)
  refine lt_of_lt_of_le ?_ (roundedLog10_mono (one_le_toRat_ofDecimal (h₃.trans h₁.ge)) hd)
  rw [h₂]
  norm_num [toRat]

-- The logarithm of the greatest number below ten that has fifteen digits is not rounded to one, nor is
-- that of any number below it.
theorem roundedLog10_ofDecimal_lt (h : 1 ≤ x.toRat) (hx : x.toRat ≤ 10 - 1 / 10 ^ 14) :
    (ofDecimal x).roundedLog10.toRat < 1 := by
  have h₁ : (Decimal.scaled 999999999999999 (-14)).toRat = 10 - 1 / 10 ^ 14 := by
    norm_num [Decimal.toRat, Decimal.scaled]
  have h₂ : (ofDecimal (.scaled 999999999999999 (-14))).roundedLog10 = ⟨9007199254740988, -53⟩ := by
    decide +kernel
  have hm := roundedLog10_mono (one_le_toRat_ofDecimal h) (ofDecimal_mono h (hx.trans h₁.ge))
  refine lt_of_le_of_lt hm ?_
  rw [h₂]
  norm_num [toRat]

end Binary64

-- Dividing by ten does not go below one.
theorem Scaled.le_shrink {units : Nat} (h : Fixed.unitsPerOne ≤ units) :
    Fixed.unitsPerOne ≤ (shrink units).1 := by
  fun_induction shrink units
  case case1              => exact h
  case case2 hu _ _ hs ih =>
    rw [hs] at ih
    apply ih
    simp only [Fixed.unitsPerOne] at *
    omega

namespace Fixed

variable {x : Fixed}

-- How the order of magnitude is split off, and how far what is left is from one and ten.
inductive Splits : Scaled → Prop
  | great {m k} : 0 < k → 1 ≤ m.toRat → Splits ⟨m, k⟩
  | small {m k} : k < 0 → 1 ≤ m.toRat → m.toRat ≤ 10 - 1 / 10 ^ 14 → Splits ⟨m, k⟩
  | near {m} : 1 + 1 / 10 ^ 15 ≤ m.toRat → Splits ⟨m, 0⟩

theorem unitsPerOne_le_tenth (h : 10 * (unitsPerOne : Int) < x.units) :
    unitsPerOne ≤ (ofQuotient x.toDecimal (.ofInt 10)).units.toNat := by
  have hc : x.units ≠ 0 := by omega
  have hq : (ofQuotient x.toDecimal (.ofInt 10)).units =
      roundHalfAway (x.units * tenTo 0 * unitsPerOne) (10 * tenTo places) := by
    rw [ofQuotient]
    exact congrArg Fixed.units (if_neg hc)
  have h₀ : tenTo 0 = 1 := rfl
  have h₁ : tenTo places = 1000000000000000 := rfl
  simp only [unitsPerOne] at h hq ⊢
  rw [hq, h₀, h₁, roundHalfAway_of_pos (by omega) (by decide), Int.toNat_natCast,
    Nat.le_div_iff_mul_le (by decide)]
  omega

-- Fewer digits than there are places leave a gap to ten.
theorem splits_of_lt_one (hx : 0 < x.units) (h : x.units < unitsPerOne) :
    Splits ⟨x.toDecimal.shift (-x.toDecimal.leadingExponent), x.toDecimal.leadingExponent⟩ := by
  have hp := digitCount_pos x.units.natAbs
  have hl : digitCount x.units.natAbs ≤ places := by
    rw [digitCount_le_iff (by decide), ← unitsPerOne_eq]
    omega
  have hu : (x.units.natAbs : Rat) = x.units := by
    rw [← Int.cast_natCast, Int.natAbs_of_nonneg hx.le]
  obtain ⟨k, hk⟩ := Nat.exists_eq_succ_of_ne_zero hp.ne'
  have he : x.toDecimal.leadingExponent = (k : Int) - places := by
    show -(places : Int) + digitCount x.units.natAbs - 1 = _
    omega
  have hm : (x.toDecimal.shift (-x.toDecimal.leadingExponent)).toRat = x.units / 10 ^ k := by
    have hz : -(places : Int) + -(k - places) = -k := by omega
    show (x.units : Rat) * 10 ^ (-(places : Int) + -x.toDecimal.leadingExponent) = _
    rw [he, hz, zpow_neg, zpow_natCast, div_eq_mul_inv]
  have hk₀ : (0 : Rat) < 10 ^ k := by positivity
  refine .small ?order ?low ?high
  case order =>
    rw [he]
    omega
  case low =>
    have h₁ : tenTo k ≤ x.units.natAbs := by
      have := tenTo_digitCount_le (Int.natAbs_pos.2 hx.ne')
      rwa [hk] at this
    rw [hm, one_le_div hk₀, ← hu]
    exact_mod_cast h₁
  case high =>
    have h₁ : x.units.natAbs + 1 ≤ tenTo k * 10 := by
      have := lt_tenTo_digitCount x.units.natAbs
      rwa [hk] at this
    have h₂ : (x.units + 1 : Rat) ≤ 10 ^ k * 10 := by
      rw [← hu]
      exact_mod_cast h₁
    have h₃ : (10 : Rat) ^ k ≤ 10 ^ 14 := pow_le_pow_right₀ (by decide) (by simp only [places] at hl; omega)
    have h₄ : (1 : Rat) / 10 ^ 14 ≤ 1 / 10 ^ k := one_div_le_one_div_of_le hk₀ h₃
    calc (x.toDecimal.shift (-x.toDecimal.leadingExponent)).toRat
        = x.units / 10 ^ k              := hm
      _ ≤ (10 ^ k * 10 - 1) / 10 ^ k    := by gcongr; linarith
      _ = 10 - 1 / 10 ^ k               := by field_simp
      _ ≤ 10 - 1 / 10 ^ 14              := by gcongr

theorem splits_ofDecimal (hx : 0 < x.units) (h : x ≠ .one) : Splits (.ofDecimal x.toDecimal) := by
  have hp : (0 : Rat) < unitsPerOne := by decide
  unfold Scaled.ofDecimal
  split
  case isTrue hg =>
    have hu := Scaled.le_shrink (unitsPerOne_le_tenth (ofInt_lt_toDecimal.1 hg))
    refine .great (by omega) ?_
    rw [toRat_toDecimal, toRat, le_div_iff₀ hp, one_mul]
    show (unitsPerOne : Rat) ≤ ((_ : Nat) : Int)
    exact_mod_cast hu
  case isFalse hg =>
    split
    case isTrue hl  => exact splits_of_lt_one hx (by simpa using toDecimal_lt_ofInt.1 hl)
    case isFalse hl =>
      have hn : (unitsPerOne : Int) + 1 ≤ x.units := by
        have hu : x.units ≠ unitsPerOne := fun hu => h (congrArg mk hu)
        rw [toDecimal_lt_ofInt] at hl
        omega
      have hs : (1 + 1 / 10 ^ 15 : Rat) = ((unitsPerOne : Int) + 1 : Int) / unitsPerOne := by
        norm_num [unitsPerOne]
      refine .near ?_
      rw [toRat_toDecimal, toRat, hs]
      gcongr

end Fixed

-- The sum of the power of ten and the logarithm of the rest.
theorem Binary64.significand_roundedLog10_ne_zero {s : Scaled} (h : Fixed.Splits s) :
    (ofInt s.exponent + (ofDecimal s.mantissa).roundedLog10).significand ≠ 0 := by
  refine significand_add_ne_zero (leastExponent_le_ofRatio ..) (leastExponent_le_ofRatio ..) ?_
  cases h
  case great m k hk hm =>
    have h₁ := one_le_toRat_ofInt hk
    have h₂ := roundedLog10_ofDecimal_nonneg hm
    exact (by linarith : (0 : Rat) < _).ne'
  case small m k hk hm hl =>
    have h₁ := toRat_ofInt_le (Int.le_sub_one_of_lt hk)
    have h₂ := roundedLog10_ofDecimal_lt hm hl
    exact (by linarith : _ < (0 : Rat)).ne
  case near m hm =>
    have h₂ := roundedLog10_ofDecimal_pos hm
    rw [toRat_ofInt_zero, zero_add]
    exact h₂.ne'

open scoped Binary64.Rounded

theorem Fixed.logZeroOnlyAtOne_rounded : LogZeroOnlyAtOne := by
  intro x y hx hy h₀
  by_contra h
  rw [log10_eq hx] at hy
  cases hy
  exact Binary64.significand_roundedLog10_ne_zero (splits_ofDecimal hx h) (Binary64.toRat_eq_zero.1 h₀)

end TermReduction
