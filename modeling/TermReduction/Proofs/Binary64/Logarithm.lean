import TermReduction.Binary64.Elementary
import TermReduction.Proofs.Binary64.Rounding

/-!
The rounded common logarithm keeps the order of the numbers from one on, so it is known everywhere from
few of its values.
-/

namespace TermReduction.Binary64

theorem oddPowerSum_mono {square square' p p' : Nat} (hs : square ≤ square') (hp : p ≤ p') (k t : Nat) :
    oddPowerSum square p k t ≤ oddPowerSum square' p' k t := by
  induction t generalizing p p' k
  case zero      => exact Nat.le_refl _
  case succ t ih =>
    have hm := Nat.div_le_div_right (c := unit) (Nat.mul_le_mul hp hs)
    exact Nat.add_le_add (Nat.div_le_div_right hp) (ih hm (k + 2))

theorem atanh_mono {n d n' d' : Nat} (hd : 0 < d) (hd' : 0 < d') (h : n * d' ≤ n' * d) :
    atanh n d ≤ atanh n' d' := by
  have hz : n * unit / d ≤ n' * unit / d' := by
    refine div_le_div_of_mul_le hd hd' ?_
    rw [Nat.mul_right_comm, Nat.mul_right_comm n']
    exact Nat.mul_le_mul_right unit h
  exact oddPowerSum_mono (Nat.div_le_div_right (Nat.mul_le_mul hz hz)) hz 1 90

-- The value of the leading bit of the significand.
def leadingBit (x : Binary64) : Nat :=
  twoTo x.significand.toNat.log2

-- The power of two at or below a positive number.
def order (x : Binary64) : Int :=
  x.exponent + x.significand.toNat.log2

-- The part of the logarithm that is not a whole number of logarithms of two.
def lnRest (x : Binary64) : Nat :=
  2 * atanh (x.significand.toNat - x.leadingBit) (x.significand.toNat + x.leadingBit)

theorem ln_eq (x : Binary64) : x.ln = x.lnRest + x.order * log2 := by
  rw [ln, lnRest, order, Nat.cast_mul]
  rfl

section Order

variable {x y : Binary64}

theorem significand_pos (h : 0 < x.toRat) : 0 < x.significand := by
  have hp : (0 : Rat) < 2 ^ x.exponent := zpow_pos two_pos _
  exact_mod_cast pos_of_mul_pos_left h hp.le

theorem leadingBit_pos (x : Binary64) : 0 < x.leadingBit :=
  twoTo_pos _

theorem leadingBit_le (h : 0 < x.toRat) : x.leadingBit ≤ x.significand.toNat := by
  have := significand_pos h
  exact Nat.log2_self_le (by omega)

theorem lt_leadingBit (x : Binary64) : x.significand.toNat < 2 * x.leadingBit := by
  rw [Nat.mul_comm]
  exact Nat.lt_log2_self

-- The significand over its leading bit is what is left when the power of two is split off.
theorem toRat_eq (h : 0 < x.toRat) :
    x.toRat = x.significand.toNat / x.leadingBit * 2 ^ x.order := by
  have hs : (x.significand.toNat : Rat) = x.significand := by
    rw [← Int.cast_natCast, Int.toNat_of_nonneg (significand_pos h).le]
  have hp : (x.leadingBit : Rat) ≠ 0 := Nat.cast_ne_zero.2 x.leadingBit_pos.ne'
  rw [order, Int.add_comm, two_zpow_add, ← leadingBit, toRat, hs]
  field_simp

theorem order_spec (h : 0 < x.toRat) : 2 ^ x.order ≤ x.toRat ∧ x.toRat < 2 ^ (x.order + 1) := by
  have hz : (0 : Rat) < 2 ^ x.order := zpow_pos two_pos _
  have hp : (0 : Rat) < x.leadingBit := Nat.cast_pos.2 x.leadingBit_pos
  rw [toRat_eq h, zpow_add_one₀ two_ne_zero, mul_comm (2 ^ x.order) 2]
  constructor
  · exact le_mul_of_one_le_left hz.le ((one_le_div hp).2 (mod_cast leadingBit_le h))
  · refine mul_lt_mul_of_pos_right ((div_lt_iff₀ hp).2 ?_) hz
    exact_mod_cast x.lt_leadingBit

theorem order_mono (hx : 0 < x.toRat) (h : x.toRat ≤ y.toRat) : x.order ≤ y.order := by
  have hlt := ((order_spec hx).1.trans h).trans_lt (order_spec (hx.trans_le h)).2
  rw [zpow_lt_zpow_iff_right₀ one_lt_two] at hlt
  omega

theorem lnRest_le (h : 0 < x.toRat) : x.lnRest ≤ log2 := by
  have h₁ := leadingBit_le h
  have h₂ := x.lt_leadingBit
  exact Nat.mul_le_mul_left 2 (atanh_mono (by omega) (by decide) (by omega))

theorem lnRest_mono (hx : 0 < x.toRat) (h : x.toRat ≤ y.toRat) (ho : x.order = y.order) :
    x.lnRest ≤ y.lnRest := by
  have hy := hx.trans_le h
  have h₁ := leadingBit_le hx
  have h₂ := leadingBit_le hy
  have hb := x.leadingBit_pos
  have hb' := y.leadingBit_pos
  rw [toRat_eq hx, toRat_eq hy, ho, mul_le_mul_iff_left₀ (zpow_pos two_pos _),
    div_le_div_iff₀ (mod_cast hb) (mod_cast hb')] at h
  rw [← Nat.cast_mul, ← Nat.cast_mul, Nat.cast_le] at h
  have hc : (x.significand.toNat - x.leadingBit) * (y.significand.toNat + y.leadingBit) ≤
      (y.significand.toNat - y.leadingBit) * (x.significand.toNat + x.leadingBit) := by
    zify [h₁, h₂] at h ⊢
    linarith
  exact Nat.mul_le_mul_left 2 (atanh_mono (by omega) (by omega) hc)

-- Where the power of two is the same, the rests decide, and elsewhere the powers.
theorem ln_mono (hx : 0 < x.toRat) (h : x.toRat ≤ y.toRat) : x.ln ≤ y.ln := by
  rw [ln_eq, ln_eq]
  rcases Int.lt_or_eq_of_le (order_mono hx h) with ho | ho
  · have h₁ := lnRest_le hx
    have h₂ : (x.order + 1) * (log2 : Int) ≤ y.order * log2 :=
      Int.mul_le_mul_of_nonneg_right ho (Int.natCast_nonneg log2)
    rw [Int.add_mul] at h₂
    omega
  · have := lnRest_mono hx h ho
    rw [ho]
    omega

theorem ln_nonneg (h : 1 ≤ x.toRat) : 0 ≤ x.ln := by
  have h₁ : (Binary64.mk 1 0).toRat = 1 := by norm_num [toRat]
  have h₂ : (Binary64.mk 1 0).ln = 0 := rfl
  exact h₂ ▸ ln_mono (by rw [h₁]; exact one_pos) (h₁.trans_le h)

theorem ln_ten_pos : 0 < (ofInt 10).ln := by
  decide +kernel

-- From one on, the common logarithm is a quotient of natural numbers.
theorem roundedLog10_eq (h : 1 ≤ x.toRat) : x.roundedLog10 = ofNatRatio x.ln.toNat (ofInt 10).ln.toNat := by
  rw [← ofRatio_natCast, Int.toNat_of_nonneg (ln_nonneg h), Int.toNat_of_nonneg ln_ten_pos.le]
  rfl

theorem roundedLog10_nonneg (h : 1 ≤ x.toRat) : 0 ≤ x.roundedLog10.toRat :=
  roundedLog10_eq h ▸ ofNatRatio_nonneg _ _

theorem roundedLog10_mono (hx : 1 ≤ x.toRat) (h : x.toRat ≤ y.toRat) :
    x.roundedLog10.toRat ≤ y.roundedLog10.toRat := by
  have hd : 0 < (ofInt 10).ln.toNat := Int.lt_toNat.2 ln_ten_pos
  rw [roundedLog10_eq hx, roundedLog10_eq (hx.trans h)]
  have hl := ln_mono (one_pos.trans_le hx) h
  exact ofNatRatio_mono hd hd (Nat.mul_le_mul_right _ (Int.toNat_le_toNat hl))

end Order

end TermReduction.Binary64
