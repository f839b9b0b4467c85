import TermReduction.Proofs.Decimal.Root
import TermReduction.Proofs.Number.Rounded

/-!
Square roots of numbers, which are rounded twice, to 34 significant digits and to fixed point. Roots that
have no more digits are exact, all others are close as long as the digits reach beyond the last place,
and roots are in the order of their radicands.
-/

namespace TermReduction

namespace Fixed

variable {x y d : Fixed}

theorem units_nonneg_iff : 0 ≤ x.units ↔ 0 ≤ x.toRat := by
  rw [toRat, le_div_iff₀ unitsPerOne_pos, zero_mul, Int.cast_nonneg_iff]

-- The square root to significant digits, before it is rounded to fixed point.
def root (x : Fixed) : Rat :=
  x.toDecimal.sqrt.toRat

theorem root_mono (hx : 0 ≤ x.toRat) (h : x.toRat ≤ y.toRat) : x.root ≤ y.root := by
  refine Decimal.toRat_sqrt_mono (units_nonneg_iff.2 hx) ?_
  rwa [toRat_toDecimal, toRat_toDecimal]

theorem nearest_root_of_square (hd : 0 ≤ d.toRat) (hp : HasDigits Decimal.rootPrecision d.units.natAbs)
    (h : x.toRat = d.toRat * d.toRat) : nearest x.root = d := by
  obtain ⟨m, k, hm, hlt⟩ := hp
  have hu : (d.units : Rat) = m * tenTo k := by
    rw [← Nat.cast_mul, ← hm]
    exact (Decimal.natAbs_coefficient (x := d.toDecimal) (units_nonneg_iff.2 hd)).symm
  have hk : d.toRat = m * 10 ^ (k + -places : Int) :=
    calc d.toRat
      _ = d.units * 10 ^ (-places : Int)     := (toRat_toDecimal d).symm
      _ = m * 10 ^ (k + -places : Int)       := by rw [hu, ten_zpow_add, mul_assoc]
  have hr : x.root = d.toRat := by
    rw [root, hk]
    refine Decimal.toRat_sqrt_of_square hlt ?_
    rw [toRat_toDecimal, h, hk, pow_two]
  rw [hr, nearest_toRat]

-- The last digit of the root of a number below ten to the power 36 is behind the last place.
theorem rootExponent_le (hx : 0 ≤ x.toRat) (h : x.toRat < 10 ^ 36) : x.toDecimal.rootExponent ≤ -16 := by
  rcases (units_nonneg_iff.2 hx).eq_or_lt with hz | hp
  · obtain rfl : x = zero := congrArg mk hz.symm
    decide +kernel
  · have hlt : (10 : Rat) ^ x.toDecimal.leadingExponent < 10 ^ (36 : Int) :=
      (Decimal.le_toRat hp).trans_lt ((toRat_toDecimal x).trans_lt h)
    have hl := (zpow_lt_zpow_iff_right₀ (by decide)).1 hlt
    rw [Decimal.rootExponent, Decimal.rootPrecision]
    omega

-- Both roundings together are off by no more than one unit.
theorem abs_nearest_root_sub_le (hx : 0 ≤ x.toRat) (h : x.toRat < 10 ^ 36) :
    unitsPerOne * |((nearest x.root).toRat : ℝ) - √x.toRat| ≤ 1 := by
  have hn : 2 * unitsPerOne * |((nearest x.root).toRat : ℝ) - x.root| ≤ 1 := by
    exact_mod_cast abs_nearest_sub_le x.root
  have hr : 2 * |(x.root : ℝ) - √x.toRat| ≤ 10 ^ (-16 : Int) := by
    have hs := Decimal.abs_toRat_sqrt_sub_le (x := x.toDecimal) (units_nonneg_iff.2 hx)
    rw [toRat_toDecimal] at hs
    exact hs.trans (zpow_le_zpow_right₀ (by norm_num) (rootExponent_le hx h))
  have ht := abs_sub_le ((nearest x.root).toRat : ℝ) x.root (√x.toRat)
  have hu : (unitsPerOne : ℝ) = 10 ^ 15 := by norm_num [unitsPerOne]
  rw [hu] at hn ⊢
  norm_num at hr
  linarith

end Fixed

namespace Number

open Fixed (nearest unitsPerOne)

variable {v w : Number} {d : Fixed}

theorem sqrt_eq_ok (hv : 0 ≤ v.toFixed.toRat) : v.sqrt = .ok (ofFixed (nearest v.toFixed.root)) := by
  have hu : ¬v.toFixed.units < 0 := not_lt.2 (Fixed.units_nonneg_iff.2 hv)
  have hc : ¬v.toFixed.toDecimal.coefficient < 0 := hu
  rw [Number.sqrt, if_neg hu, Fixed.sqrt, if_neg hc, Fixed.ofDecimal_eq]
  rfl

theorem sqrt_of_square (hd : 0 ≤ d.toRat) (hp : HasDigits Decimal.rootPrecision d.units.natAbs)
    (h : v.toFixed.toRat = d.toRat * d.toRat) : v.sqrt = .ok (ofFixed d) := by
  have hv : 0 ≤ v.toFixed.toRat := h ▸ mul_nonneg hd hd
  rw [sqrt_eq_ok hv, Fixed.nearest_root_of_square hd hp h]

theorem sqrt_integer {n : Nat} (hn : n ≤ 10 ^ 34) : (integer (n * n)).sqrt = .ok (integer n) := by
  have hp : HasDigits Decimal.rootPrecision (Fixed.ofInt n).units.natAbs := by
    rcases hn.lt_or_eq with hn | rfl
    · exact ⟨n, 15, Int.natAbs_natCast (n * unitsPerOne), hn⟩
    · exact ⟨1, 49, rfl, by decide⟩
  have hd : 0 ≤ (Fixed.ofInt n).toRat := by
    rw [Fixed.toRat_ofInt]
    exact Nat.cast_nonneg n
  have h : (integer (n * n)).toFixed.toRat = (Fixed.ofInt n).toRat * (Fixed.ofInt n).toRat := by
    rw [toFixed, Fixed.toRat_ofInt, Fixed.toRat_ofInt, Int.cast_mul]
  rw [sqrt_of_square hd hp h, ofFixed_ofInt]

-- A distance from a root, in terms of squares.
theorem le_sq_of_abs_sub_sqrt_le {x y e : Rat} (hx : 0 ≤ x) (h : |(y : ℝ) - √x| ≤ e) :
    x ≤ (y + e) ^ 2 ∧ (y - e < 0 ∨ (y - e) ^ 2 ≤ x) := by
  obtain ⟨hl, hu⟩ := abs_le.1 h
  constructor
  case left  =>
    have hs : √x ≤ (y + e : Rat) := by
      push_cast
      linarith
    exact_mod_cast (Real.sqrt_le_iff.1 hs).2
  case right =>
    refine (lt_or_ge (y - e) 0).imp_right fun hn => ?_
    have hs : ((y - e : Rat) : ℝ) ≤ √x := by
      push_cast
      linarith
    exact_mod_cast (Real.le_sqrt (Rat.cast_nonneg.2 hn) (Rat.cast_nonneg.2 hx)).1 hs

-- A root that has at most 34 digits, none of them behind the last place, is exact. Other roots are off by
-- at most one unit if the number is below ten to the power 36. Roots of greater numbers are not smaller.
theorem sqrt_accurate (hv : 0 ≤ v.toFixed.toRat) (hvw : v.toFixed.toRat ≤ w.toFixed.toRat) :
    ∃ y z, v.sqrt = .ok y ∧ w.sqrt = .ok z ∧
      (∀ d : Fixed, 0 ≤ d.toRat → HasDigits Decimal.rootPrecision d.units.natAbs →
        v.toFixed.toRat = d.toRat * d.toRat → FixedForm d.toRat y) ∧
      (∀ n : Nat, n ≤ 10 ^ 34 → (integer (n * n)).sqrt = .ok (integer n)) ∧
      (v.toFixed.toRat < 10 ^ 36 →
        |(y.toRat : ℝ) - √v.toFixed.toRat| ≤ 1 / unitsPerOne ∧
        v.toFixed.toRat ≤ (y.toRat + 1 / unitsPerOne) ^ 2 ∧
        (y.toRat - 1 / unitsPerOne < 0 ∨ (y.toRat - 1 / unitsPerOne) ^ 2 ≤ v.toFixed.toRat)) ∧
      y.toRat ≤ z.toRat := by
  refine ⟨_, _, sqrt_eq_ok hv, sqrt_eq_ok (hv.trans hvw), ?square, fun n => sqrt_integer, ?close, ?mono⟩
  case square =>
    intro d hd hp h
    rw [Fixed.nearest_root_of_square hd hp h]
    exact fixedForm_ofFixed d
  case close  =>
    intro h
    rw [toRat_ofFixed]
    have hu : (0 : ℝ) < unitsPerOne := by exact_mod_cast Fixed.unitsPerOne_pos
    have hs := (le_div_iff₀' hu).2 (Fixed.abs_nearest_root_sub_le hv h)
    refine ⟨hs, le_sq_of_abs_sub_sqrt_le hv (hs.trans_eq ?_)⟩
    push_cast
    rfl
  case mono   =>
    rw [toRat_ofFixed, toRat_ofFixed]
    exact Fixed.nearest_mono (Fixed.root_mono hv hvw)

-- The root of two is rounded, that of nine quarters is not.
theorem sqrt_accurate_two :
    let v := integer 2
    let w := rational ⟨9, 4⟩
    let d : Fixed := ⟨1500000000000000⟩
    (0 ≤ v.toFixed.toRat ∧ v.toFixed.toRat ≤ w.toFixed.toRat) ∧
      (0 ≤ d.toRat ∧ HasDigits Decimal.rootPrecision d.units.natAbs ∧ w.toFixed.toRat = d.toRat * d.toRat) ∧
      (∃ y z, v.sqrt = .ok y ∧ w.sqrt = .ok z ∧ |(y.toRat : ℝ) - √2| ≤ 1 / unitsPerOne ∧ y.toRat ≤ z.toRat) ∧
      ∃ z, w.sqrt = .ok z ∧ FixedForm d.toRat z := by
  intro v w d
  have hv : 0 ≤ v.toFixed.toRat := by decide +kernel
  have hvw : v.toFixed.toRat ≤ w.toFixed.toRat := by decide +kernel
  have hd : 0 ≤ d.toRat := by decide +kernel
  have hp : HasDigits Decimal.rootPrecision d.units.natAbs := ⟨15, 14, by decide, by decide +kernel⟩
  have h : w.toFixed.toRat = d.toRat * d.toRat := by decide +kernel
  have h2 : v.toFixed.toRat = 2 := by decide +kernel
  obtain ⟨y, z, hy, hz, -, -, hc, hm⟩ := sqrt_accurate hv hvw
  obtain ⟨z', -, hz', -, hs, -⟩ := sqrt_accurate (hv.trans hvw) le_rfl
  have hc := (hc (by rw [h2]; norm_num)).1
  rw [h2, Rat.cast_ofNat] at hc
  exact ⟨⟨hv, hvw⟩, ⟨hd, hp, h⟩, ⟨y, z, hy, hz, hc, hm⟩, z', hz', hs d hd hp h⟩

end Number

end TermReduction
