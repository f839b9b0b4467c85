import Mathlib.Analysis.Real.Sqrt
import TermReduction.Proofs.Decimal.Value

/-!
Square roots of decimals: rounded to 34 significant digits they are exact where the root has no more
digits, they keep the order of numbers, and they are off by at most half a unit of the last digit.
-/

namespace TermReduction

section Rounding

variable {n d n' d' : Nat}

theorem rootHalfEven_le (n d : Nat) : rootHalfEven n d ≤ (n / d).sqrt + 1 := by
  unfold rootHalfEven
  simp only
  split <;> omega

theorem le_rootHalfEven (n d : Nat) : (n / d).sqrt ≤ rootHalfEven n d := by
  unfold rootHalfEven
  simp only
  split <;> omega

theorem rootHalfEven_mono (hd : 0 < d) (hd' : 0 < d') (h : n * d' ≤ n' * d) :
    rootHalfEven n d ≤ rootHalfEven n' d' := by
  rcases Nat.lt_or_eq_of_le (Nat.sqrt_le_sqrt (div_le_div_of_mul_le hd hd' h)) with hs | hs
  · exact (rootHalfEven_le n d).trans (Nat.le_trans hs (le_rootHalfEven n' d'))
  · -- the roots have one integer part, and what is rounded up stays so when the radicand grows
    unfold rootHalfEven
    simp only [← hs]
    generalize (2 * (n / d).sqrt + 1) * (2 * (n / d).sqrt + 1) = a
    have hlt : 4 * n' < a * d' → 4 * n < a * d := by
      intro h'
      refine Nat.lt_of_mul_lt_mul_right (a := d') ?_
      nlinarith
    have hle : 4 * n' ≤ a * d' → 4 * n ≤ a * d := by
      intro h'
      refine Nat.le_of_mul_le_mul_right ?_ hd'
      nlinarith
    split <;> split <;> omega

theorem rootHalfEven_square (m : Nat) (hd : 0 < d) : rootHalfEven (m * m * d) d = m := by
  have hq : (m * m * d / d).sqrt = m := by rw [Nat.mul_div_cancel _ hd, Nat.sqrt_eq]
  have hl : 4 * (m * m * d) < (2 * m + 1) * (2 * m + 1) * d := by nlinarith
  unfold rootHalfEven
  simp only [hq]
  exact if_pos (.inl hl)

theorem sqrt_le_half_iff (n : Nat) (hd : 0 < d) (t : Nat) : √(n / d : ℝ) ≤ t / 2 ↔ 4 * n ≤ t * t * d := by
  have hd' : (0 : ℝ) < d := Nat.cast_pos.2 hd
  rw [Real.sqrt_le_left (by positivity), div_pow, div_le_div_iff₀ hd' (by positivity)]
  rw [← Nat.cast_le (α := ℝ)]
  push_cast
  constructor <;> intro <;> linarith

theorem half_le_sqrt_iff (n : Nat) (hd : 0 < d) (t : Nat) : t / 2 ≤ √(n / d : ℝ) ↔ t * t * d ≤ 4 * n := by
  have hd' : (0 : ℝ) < d := Nat.cast_pos.2 hd
  rw [Real.le_sqrt (by positivity) (by positivity), div_pow, div_le_div_iff₀ (by positivity) hd']
  rw [← Nat.cast_le (α := ℝ)]
  push_cast
  constructor <;> intro <;> linarith

theorem abs_rootHalfEven_sub_le (n : Nat) (hd : 0 < d) : 2 * |(rootHalfEven n d : ℝ) - √(n / d)| ≤ 1 := by
  generalize hs : (n / d).sqrt = s
  have hl : s * s * d ≤ n := by
    rw [← Nat.le_div_iff_mul_le hd, ← hs]
    exact Nat.sqrt_le (n / d)
  have hu : n < (s + 1) * (s + 1) * d := by
    rw [← Nat.div_lt_iff_lt_mul hd, ← hs]
    exact Nat.lt_succ_sqrt (n / d)
  have hl' := (half_le_sqrt_iff n hd (2 * s)).2 (by linarith)
  have hu' := (sqrt_le_half_iff n hd (2 * (s + 1))).2 (by linarith)
  have ha : |(rootHalfEven n d : ℝ) - √(n / d)| ≤ 1 / 2 := by
    unfold rootHalfEven
    simp only [hs]
    split
    case isTrue hc  =>
      have hm := (sqrt_le_half_iff n hd (2 * s + 1)).2 (by omega)
      push_cast at hl' hm
      exact abs_le.2 ⟨by linarith, by linarith⟩
    case isFalse hc =>
      have hm := (half_le_sqrt_iff n hd (2 * s + 1)).2 (by omega)
      push_cast at hu' hm ⊢
      exact abs_le.2 ⟨by linarith, by linarith⟩
  linarith

end Rounding

namespace Decimal

variable {x y : Decimal}

-- The integer nearest to the square root, halves to the even neighbour.
def rootRounded (x : Decimal) : Nat :=
  rootHalfEven (x.coefficient.toNat * tenTo x.exponent.toNat) (tenTo (-x.exponent).toNat)

theorem rootRounded_mono (hx : 0 ≤ x.coefficient) (hy : 0 ≤ y.coefficient) (h : x.toRat ≤ y.toRat) :
    x.rootRounded ≤ y.rootRounded := by
  refine rootHalfEven_mono (tenTo_pos _) (tenTo_pos _) ?_
  rw [toRat_eq_div hx, toRat_eq_div hy,
    div_le_div_iff₀ (Nat.cast_pos.2 (tenTo_pos _)) (Nat.cast_pos.2 (tenTo_pos _))] at h
  exact_mod_cast h

theorem rootRounded_square (hx : 0 ≤ x.coefficient) {m : Nat} (h : x.toRat = m ^ 2) : x.rootRounded = m := by
  have hp := tenTo_pos (-x.exponent).toNat
  rw [toRat_eq_div hx, div_eq_iff (Nat.cast_ne_zero.2 hp.ne'), pow_two] at h
  have hn : x.coefficient.toNat * tenTo x.exponent.toNat = m * m * tenTo (-x.exponent).toNat := by
    exact_mod_cast h
  rw [rootRounded, hn, rootHalfEven_square m hp]

theorem toRat_ofInt_sq (m : Nat) : (ofInt (m ^ 2 : Nat)).toRat = m ^ 2 := by
  rw [toRat_ofInt]
  push_cast
  rfl

theorem rootRounded_le (hx : 0 ≤ x.coefficient) {m : Nat} (h : x.toRat ≤ m ^ 2) : x.rootRounded ≤ m := by
  have hm := toRat_ofInt_sq m
  rw [← rootRounded_square (Int.natCast_nonneg _) hm]
  exact rootRounded_mono hx (Int.natCast_nonneg _) (h.trans_eq hm.symm)

theorem le_rootRounded (hx : 0 ≤ x.coefficient) {m : Nat} (h : (m ^ 2 : Rat) ≤ x.toRat) :
    m ≤ x.rootRounded := by
  have hm := toRat_ofInt_sq m
  rw [← rootRounded_square (Int.natCast_nonneg _) hm]
  exact rootRounded_mono (Int.natCast_nonneg _) hx (hm.trans_le h)

theorem abs_rootRounded_sub_le (hx : 0 ≤ x.coefficient) : 2 * |(x.rootRounded : ℝ) - √x.toRat| ≤ 1 := by
  have h := abs_rootHalfEven_sub_le (x.coefficient.toNat * tenTo x.exponent.toNat)
    (tenTo_pos (-x.exponent).toNat)
  rwa [toRat_eq_div hx, Rat.cast_div, Rat.cast_natCast, Rat.cast_natCast]

-- The power of ten of the last digit that is kept of a root.
def rootExponent (x : Decimal) : Int :=
  x.leadingExponent / 2 - (rootPrecision - 1 : Nat)

-- The radicand in such units that the root is rounded to an integer.
def radicand (x : Decimal) : Decimal :=
  x.shift (-(2 * x.rootExponent))

theorem toRat_sqrt (x : Decimal) : x.sqrt.toRat = x.radicand.rootRounded * 10 ^ x.rootExponent :=
  rfl

theorem toRat_radicand (x : Decimal) : x.radicand.toRat = x.toRat / (10 ^ x.rootExponent) ^ 2 := by
  rw [radicand, toRat_shift, zpow_neg, mul_comm 2, zpow_mul, div_eq_mul_inv]
  rfl

theorem le_radicand_iff {q : Rat} : q ^ 2 ≤ x.radicand.toRat ↔ (q * 10 ^ x.rootExponent) ^ 2 ≤ x.toRat := by
  rw [toRat_radicand, le_div_iff₀ (pow_pos (ten_zpow_pos _) 2), mul_pow]

theorem radicand_le_iff {q : Rat} : x.radicand.toRat ≤ q ^ 2 ↔ x.toRat ≤ (q * 10 ^ x.rootExponent) ^ 2 := by
  rw [toRat_radicand, div_le_iff₀ (pow_pos (ten_zpow_pos _) 2), mul_pow]

-- The order of magnitude of a root is half of that of the radicand.
theorem le_toRat_of_pos (h : 0 < x.coefficient) : (10 ^ (x.leadingExponent / 2)) ^ 2 ≤ x.toRat := by
  refine le_trans ?_ (le_toRat h)
  rw [← zpow_ofNat, ← zpow_mul]
  exact zpow_le_zpow_right₀ (by decide) (by omega)

theorem toRat_lt_of_nonneg (h : 0 ≤ x.coefficient) : x.toRat < (10 ^ (x.leadingExponent / 2 + 1)) ^ 2 := by
  refine lt_of_lt_of_le (toRat_lt h) ?_
  rw [← zpow_ofNat, ← zpow_mul]
  exact zpow_le_zpow_right₀ (by decide) (by omega)

theorem toRat_sqrt_le (h : 0 ≤ x.coefficient) : x.sqrt.toRat ≤ 10 ^ (x.leadingExponent / 2 + 1) := by
  have hc : 0 ≤ x.radicand.coefficient := h
  have he : x.leadingExponent / 2 + 1 = (rootPrecision : Nat) + x.rootExponent := by
    rw [rootExponent, rootPrecision]
    omega
  have hq : x.radicand.toRat ≤ (tenTo rootPrecision : Rat) ^ 2 := by
    rw [radicand_le_iff, ← ten_zpow_add, ← he]
    exact (toRat_lt_of_nonneg h).le
  rw [he, ten_zpow_add, toRat_sqrt]
  exact mul_le_mul_of_nonneg_right (Nat.cast_le.2 (rootRounded_le hc hq)) (ten_zpow_pos _).le

theorem le_toRat_sqrt (h : 0 < x.coefficient) : 10 ^ (x.leadingExponent / 2) ≤ x.sqrt.toRat := by
  have hc : 0 ≤ x.radicand.coefficient := h.le
  have he : x.leadingExponent / 2 = (rootPrecision - 1 : Nat) + x.rootExponent := by
    rw [rootExponent]
    omega
  have hq : (tenTo (rootPrecision - 1) : Rat) ^ 2 ≤ x.radicand.toRat := by
    rw [le_radicand_iff, ← ten_zpow_add, ← he]
    exact le_toRat_of_pos h
  rw [he, ten_zpow_add, toRat_sqrt]
  exact mul_le_mul_of_nonneg_right (Nat.cast_le.2 (le_rootRounded hc hq)) (ten_zpow_pos _).le

theorem toRat_sqrt_nonneg (x : Decimal) : 0 ≤ x.sqrt.toRat :=
  mul_nonneg (Nat.cast_nonneg _) (ten_zpow_pos _).le

theorem toRat_sqrt_of_zero (h : x.coefficient = 0) : x.sqrt.toRat = 0 := by
  have hq : x.radicand.toRat = (0 : Nat) ^ 2 := by
    rw [toRat_radicand, toRat_eq_zero.2 h, zero_div, Nat.cast_zero, zero_pow two_ne_zero]
  have hc : 0 ≤ x.radicand.coefficient := h.ge
  rw [toRat_sqrt, rootRounded_square hc hq, Nat.cast_zero, zero_mul]

theorem toRat_sqrt_mono (hx : 0 ≤ x.coefficient) (h : x.toRat ≤ y.toRat) : x.sqrt.toRat ≤ y.sqrt.toRat := by
  rcases hx.eq_or_lt with hz | hx
  · rw [toRat_sqrt_of_zero hz.symm]
    exact toRat_sqrt_nonneg y
  · have hy := coefficient_pos_of_le hx h
    have hl : x.leadingExponent / 2 ≤ y.leadingExponent / 2 :=
      Int.ediv_le_ediv (by decide) (leadingExponent_mono hx h)
    rcases hl.eq_or_lt with hl | hl
    · -- both are rounded to the same digit
      have he : x.rootExponent = y.rootExponent := by rw [rootExponent, rootExponent, hl]
      have hr : x.radicand.toRat ≤ y.radicand.toRat := by
        rw [toRat_radicand, toRat_radicand, he]
        exact div_le_div_of_nonneg_right h (pow_pos (ten_zpow_pos _) 2).le
      rw [toRat_sqrt, toRat_sqrt, he]
      exact mul_le_mul_of_nonneg_right (Nat.cast_le.2 (rootRounded_mono hx.le hy.le hr)) (ten_zpow_pos _).le
    · -- a power of ten lies between the roots, and neither is rounded beyond it
      calc x.sqrt.toRat
        _ ≤ 10 ^ (x.leadingExponent / 2 + 1) := toRat_sqrt_le hx.le
        _ ≤ 10 ^ (y.leadingExponent / 2)     := zpow_le_zpow_right₀ (by decide) (by omega)
        _ ≤ y.sqrt.toRat                     := le_toRat_sqrt hy

-- A root that has no more digits than are kept is exact.
theorem toRat_sqrt_of_square {m : Nat} {k : Int} (hm : m < tenTo rootPrecision)
    (h : x.toRat = (m * 10 ^ k) ^ 2) : x.sqrt.toRat = m * 10 ^ k := by
  rcases Nat.eq_zero_or_pos m with rfl | hp
  · rw [Nat.cast_zero, zero_mul, zero_pow two_ne_zero, toRat_eq_zero] at h
    rw [toRat_sqrt_of_zero h, Nat.cast_zero, zero_mul]
  · have hd : (0 : Rat) < m * 10 ^ k := mul_pos (Nat.cast_pos.2 hp) (ten_zpow_pos k)
    have hx : 0 < x.coefficient := coefficient_pos (h ▸ pow_pos hd 2)
    have hlt : (10 : Rat) ^ (x.leadingExponent / 2) < 10 ^ (rootPrecision + k : Int) :=
      calc (10 : Rat) ^ (x.leadingExponent / 2)
        _ ≤ m * 10 ^ k                     :=
          (pow_le_pow_iff_left₀ (ten_zpow_pos _).le hd.le two_ne_zero).1 (h ▸ le_toRat_of_pos hx)
        _ < tenTo rootPrecision * 10 ^ k   := mul_lt_mul_of_pos_right (Nat.cast_lt.2 hm) (ten_zpow_pos k)
        _ = 10 ^ (rootPrecision + k : Int) := (ten_zpow_add _ k).symm
    have hl := (zpow_lt_zpow_iff_right₀ (by decide)).1 hlt
    obtain ⟨j, hj⟩ : ∃ j : Nat, k = j + x.rootExponent := by
      refine ⟨(k - x.rootExponent).toNat, ?_⟩
      rw [rootExponent] at *
      rw [rootPrecision] at *
      omega
    have hk : (m * 10 ^ k : Rat) = (m * tenTo j : Nat) * 10 ^ x.rootExponent := by
      rw [hj, ten_zpow_add, Nat.cast_mul, mul_assoc]
    have hc : 0 ≤ x.radicand.coefficient := hx.le
    have hq : x.radicand.toRat = (m * tenTo j : Nat) ^ 2 := by
      rw [toRat_radicand, h, hk, mul_pow, mul_div_cancel_right₀ _ (pow_pos (ten_zpow_pos _) 2).ne']
    rw [toRat_sqrt, rootRounded_square hc hq, hk]

theorem abs_toRat_sqrt_sub_le (h : 0 ≤ x.coefficient) :
    2 * |(x.sqrt.toRat : ℝ) - √x.toRat| ≤ 10 ^ x.rootExponent := by
  have hc : 0 ≤ x.radicand.coefficient := h
  have hp : (0 : ℝ) < 10 ^ x.rootExponent := zpow_pos (by norm_num) _
  have hx : (x.toRat : ℝ) = x.radicand.toRat * (10 ^ x.rootExponent) ^ 2 := by
    rw [toRat_radicand]
    push_cast
    rw [div_mul_cancel₀ _ (pow_pos hp 2).ne']
  have hs : (x.sqrt.toRat : ℝ) = x.radicand.rootRounded * 10 ^ x.rootExponent := by
    rw [toRat_sqrt]
    push_cast
    rfl
  have hr := mul_le_mul_of_nonneg_right (abs_rootRounded_sub_le hc) hp.le
  rwa [one_mul, mul_assoc, ← abs_of_pos hp, ← abs_mul, abs_of_pos hp, sub_mul, ← hs,
    ← Real.sqrt_sq hp.le, ← Real.sqrt_mul' _ (sq_nonneg _), ← hx, Real.sqrt_sq hp.le] at hr

end Decimal

end TermReduction
