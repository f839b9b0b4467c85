import TermReduction.Binary64.Shortest
import TermReduction.Proofs.Binary64.Rounding
import TermReduction.Proofs.Decimal.Value

/-!
Decimals as binary numbers and back. The reading of decimals keeps their order, and the shortest decimal
of a binary number is zero only if the number is.
-/

namespace TermReduction.Binary64

section OfDecimal

variable {x y : Decimal}

-- A decimal from one on is not small enough to be taken for zero.
theorem ofDecimal_eq (h : 1 ≤ x.toRat) : ofDecimal x =
    ofNatRatio (x.coefficient.toNat * tenTo x.exponent.toNat) (tenTo (-x.exponent).toNat) := by
  have hc := Decimal.coefficient_pos (one_pos.trans_le h)
  have hl : ¬x.leadingExponent < leastDecimalExponent := by
    have := Decimal.leadingExponent_nonneg h
    rw [leastDecimalExponent]
    omega
  rw [ofDecimal, if_neg hl, ← ofRatio_natCast, scaleUp_eq, Nat.cast_mul, Int.toNat_of_nonneg hc.le]

theorem ofDecimal_mono (hx : 1 ≤ x.toRat) (h : x.toRat ≤ y.toRat) :
    (ofDecimal x).toRat ≤ (ofDecimal y).toRat := by
  have hcx := Decimal.coefficient_pos (one_pos.trans_le hx)
  have hcy := Decimal.coefficient_pos (one_pos.trans_le (hx.trans h))
  rw [ofDecimal_eq hx, ofDecimal_eq (hx.trans h)]
  refine ofNatRatio_mono (tenTo_pos _) (tenTo_pos _) ?_
  rw [Decimal.toRat_eq_div hcx.le, Decimal.toRat_eq_div hcy.le,
    div_le_div_iff₀ (Nat.cast_pos.2 (tenTo_pos _)) (Nat.cast_pos.2 (tenTo_pos _))] at h
  rwa [← Nat.cast_mul, ← Nat.cast_mul, Nat.cast_le] at h

theorem ofDecimal_eq_zero (h : x.coefficient = 0) : ofDecimal x = zero := by
  unfold ofDecimal
  split
  case isTrue  => rfl
  case isFalse =>
    rw [scaleUp_eq, h, Int.zero_mul]
    simp [ofRatio, ofNatRatio]

end OfDecimal

theorem ofDecimal_of_readBackAt? {x : Binary64} {n d : Nat} {e : Int} {y : Decimal}
    (h : readBackAt? x n d e = some y) : ofDecimal y = x := by
  simpa using List.find?_some h

variable {n d : Nat}

theorem zpow_floorLog10_le (hn : 0 < n) (hd : 0 < d) : (10 : Rat) ^ floorLog10 n d ≤ n / d := by
  unfold floorLog10
  simp only
  split
  case isTrue h  => exact (tenTo_le_iff hd _).1 h
  case isFalse h =>
    have hp := digitCount_pos n
    have he : (digitCount n : Int) - digitCount d - 1 = (digitCount n - 1 : Nat) - digitCount d := by
      omega
    have h₁ : (10 : Rat) ^ (digitCount n - 1) ≤ n := by exact_mod_cast tenTo_digitCount_le hn
    have h₂ : (d : Rat) ≤ 10 ^ digitCount d := by exact_mod_cast (lt_tenTo_digitCount d).le
    rw [he, zpow_sub₀ (by decide), zpow_natCast, zpow_natCast]
    exact div_le_div₀ (Nat.cast_nonneg n) h₁ (Nat.cast_pos.2 hd) h₂

-- Where the grid is finer than the number, the nearest point of it is not zero.
theorem coefficient_refine_ne_zero {x : Binary64} (hx : x.significand ≠ 0) (hd : 0 < d) (t : Nat)
    {e : Int} (h : (10 : Rat) ^ (e - t) ≤ n / d) : (refine x n d e t).coefficient ≠ 0 := by
  induction t generalizing e
  case zero      =>
    have hle : d * tenTo e.toNat ≤ n * tenTo (-e).toNat := by
      rw [tenTo_le_iff hd]
      simpa using h
    have hq : 1 ≤ n * tenTo (-e).toNat / (d * tenTo e.toNat) :=
      (Nat.one_le_div_iff (Nat.mul_pos hd (tenTo_pos _))).2 hle
    have hr := hq.trans (le_roundHalfEven _ _)
    show ((roundHalfEven _ _ : Nat) : Int) ≠ 0
    omega
  case succ t ih =>
    rw [refine]
    cases hr : readBackAt? x n d e
    case some y =>
      intro (hz : y.coefficient = 0)
      rw [← ofDecimal_of_readBackAt? hr, ofDecimal_eq_zero hz] at hx
      exact hx rfl
    case none   =>
      apply ih
      rwa [Int.sub_sub, Int.add_comm]

theorem coefficient_shortest_ne_zero {x : Binary64} (h : x.significand ≠ 0) :
    x.shortest.coefficient ≠ 0 := by
  unfold shortest
  simp only
  rw [if_neg h]
  generalize hn : x.significand.natAbs * twoTo x.exponent.toNat = n
  generalize hd : twoTo (-x.exponent).toNat = d
  have hn : 0 < n := hn ▸ Nat.mul_pos (Int.natAbs_pos.2 h) (twoTo_pos _)
  have hd : 0 < d := hd ▸ twoTo_pos _
  have he : (10 : Rat) ^ (floorLog10 n d - mostDigits : Int) ≤ n / d :=
    (zpow_le_zpow_right₀ (by decide) (by omega)).trans (zpow_floorLog10_le hn hd)
  split
  case isTrue  => exact neg_ne_zero.2 (coefficient_refine_ne_zero (neg_ne_zero.2 h) hd mostDigits he)
  case isFalse => exact coefficient_refine_ne_zero h hd mostDigits he

end TermReduction.Binary64
