import Mathlib.Algebra.Order.Field.Power
import Mathlib.Data.Int.Log
import Mathlib.Data.Rat.Floor
import Mathlib.Tactic.Linarith
import Mathlib.Tactic.Ring
import TermReduction.Binary64.Basic
import TermReduction.Proofs.Power
import TermReduction.Proofs.Rounding

/-!
Rounding to binary floating point keeps the order of numbers, and a sum is zero only if the exact sum
is.
-/

namespace TermReduction

namespace Binary64

variable {n d n' d' : Nat}

theorem floorLog2_eq (hn : 0 < n) (hd : 0 < d) : floorLog2 n d = Int.log 2 (n / d : Rat) := by
  have hq : (0 : Rat) < n / d := div_pos (Nat.cast_pos.2 hn) (Nat.cast_pos.2 hd)
  unfold floorLog2
  simp only
  generalize hk : (n.log2 : Int) - d.log2 = k
  have hz : ∀ m : Nat, 0 < m → (2 : Rat) ^ (m.log2 : Int) ≤ m ∧ m < (2 : Rat) ^ (m.log2 + 1 : Int) := by
    intro m hm
    have h₁ : 2 ^ m.log2 ≤ m := Nat.log2_self_le hm.ne'
    have h₂ : m < 2 ^ (m.log2 + 1) := Nat.lt_log2_self
    exact ⟨mod_cast h₁, mod_cast h₂⟩
  have hl : k - 1 ≤ Int.log 2 (n / d : Rat) := by
    have he : k - 1 = (n.log2 : Int) - (d.log2 + 1) := by omega
    rw [← Int.zpow_le_iff_le_log Nat.one_lt_two hq, he, Nat.cast_ofNat, zpow_sub₀ two_ne_zero]
    exact div_le_div₀ (Nat.cast_nonneg n) (hz n hn).1 (Nat.cast_pos.2 hd) (hz d hd).2.le
  have hu : Int.log 2 (n / d : Rat) < k + 1 := by
    have he : k + 1 = (n.log2 + 1 : Int) - d.log2 := by omega
    rw [← Int.lt_zpow_iff_log_lt Nat.one_lt_two hq, he, Nat.cast_ofNat, zpow_sub₀ two_ne_zero]
    exact div_lt_div₀ (hz n hn).2 (hz d hd).1 (zpow_pos two_pos _).le (zpow_pos two_pos _)
  have hi : d * twoTo k.toNat ≤ n * twoTo (-k).toNat ↔ k ≤ Int.log 2 (n / d : Rat) :=
    (pow_le_iff Nat.two_pos hd k).trans (Int.zpow_le_iff_le_log Nat.one_lt_two hq)
  split <;> omega

-- The exponent of the last bit that is kept of `n / d`.
def quantum (n d : Nat) : Int :=
  max (floorLog2 n d - (precision - 1 : Nat)) leastExponent

-- The multiple of the last bit that is nearest to `n / d`.
def steps (n d : Nat) : Nat :=
  roundHalfEven (n * twoTo (-quantum n d).toNat) (d * twoTo (quantum n d).toNat)

theorem ofNatRatio_eq (hn : 0 < n) (hd : 0 < d) : ofNatRatio n d =
    if steps n d = twoTo precision then ⟨twoTo (precision - 1), quantum n d + 1⟩
    else ⟨steps n d, quantum n d⟩ := by
  rw [ofNatRatio, if_neg (by omega)]
  rfl

theorem toRat_ofNatRatio (hn : 0 < n) (hd : 0 < d) :
    (ofNatRatio n d).toRat = steps n d * 2 ^ quantum n d := by
  rw [ofNatRatio_eq hn hd]
  split
  case isTrue h  =>
    have hp : twoTo precision = twoTo (precision - 1) * 2 := rfl
    rw [toRat, h, hp, zpow_add₀ (by decide)]
    push_cast
    ring
  case isFalse h => rw [toRat, Int.cast_natCast]

theorem steps_le (hn : 0 < n) (hd : 0 < d) : steps n d ≤ twoTo precision := by
  have hlt : ¬(twoTo precision : Rat) * 2 ^ quantum n d ≤ n / d := by
    have he : Int.log 2 (n / d : Rat) + 1 ≤ precision + quantum n d := by
      rw [quantum, floorLog2_eq hn hd, precision]
      omega
    rw [← two_zpow_add, not_le]
    exact (Int.lt_zpow_succ_log_self Nat.one_lt_two _).trans_le (zpow_le_zpow_right₀ one_le_two he)
  rw [← mul_twoTo_le_iff hd, ← Nat.le_div_iff_mul_le (Nat.mul_pos hd (twoTo_pos _))] at hlt
  exact Nat.le_trans (roundHalfEven_le _ _) (Nat.lt_of_not_le hlt)

-- Fewer than all bits are kept of numbers with the least exponent only.
theorem le_steps (hn : 0 < n) (hd : 0 < d) (h : leastExponent < quantum n d) :
    twoTo (precision - 1) ≤ steps n d := by
  have hq : (0 : Rat) < n / d := div_pos (Nat.cast_pos.2 hn) (Nat.cast_pos.2 hd)
  have hle : (twoTo (precision - 1) : Rat) * 2 ^ quantum n d ≤ n / d := by
    have he : (precision - 1 : Nat) + quantum n d = Int.log 2 (n / d : Rat) := by
      rw [quantum, floorLog2_eq hn hd] at h ⊢
      omega
    rw [← two_zpow_add, he]
    exact Int.zpow_log_le_self Nat.one_lt_two hq
  rw [← mul_twoTo_le_iff hd, ← Nat.le_div_iff_mul_le (Nat.mul_pos hd (twoTo_pos _))] at hle
  exact Nat.le_trans hle (le_roundHalfEven _ _)

theorem ofNatRatio_nonneg (n d : Nat) : 0 ≤ (ofNatRatio n d).toRat := by
  by_cases h : n = 0 ∨ d = 0
  case pos => simp [ofNatRatio, h, zero, toRat]
  case neg =>
    rw [toRat_ofNatRatio (by omega) (by omega)]
    positivity

theorem steps_mono (hd : 0 < d) (hd' : 0 < d') (h : n * d' ≤ n' * d) (he : quantum n d = quantum n' d') :
    steps n d ≤ steps n' d' := by
  unfold steps
  rw [he]
  refine roundHalfEven_mono (Nat.mul_pos hd (twoTo_pos _)) (Nat.mul_pos hd' (twoTo_pos _)) ?_
  calc n * twoTo (-quantum n' d').toNat * (d' * twoTo (quantum n' d').toNat)
      = n * d' * (twoTo (-quantum n' d').toNat * twoTo (quantum n' d').toNat) := by ring
    _ ≤ n' * d * (twoTo (-quantum n' d').toNat * twoTo (quantum n' d').toNat) := by gcongr
    _ = n' * twoTo (-quantum n' d').toNat * (d * twoTo (quantum n' d').toNat) := by ring

theorem ofNatRatio_mono_of_pos (hn : 0 < n) (hd : 0 < d) (hd' : 0 < d') (h : n * d' ≤ n' * d) :
    (ofNatRatio n d).toRat ≤ (ofNatRatio n' d').toRat := by
  have hn' : 0 < n' := Nat.pos_of_mul_pos_right ((Nat.mul_pos hn hd').trans_le h)
  have hq : (0 : Rat) < n / d := div_pos (Nat.cast_pos.2 hn) (Nat.cast_pos.2 hd)
  have hr : (n / d : Rat) ≤ n' / d' := by
    rw [div_le_div_iff₀ (Nat.cast_pos.2 hd) (Nat.cast_pos.2 hd')]
    exact_mod_cast h
  have he : quantum n d ≤ quantum n' d' := by
    have := Int.log_mono_right (b := 2) hq hr
    rw [quantum, quantum, floorLog2_eq hn hd, floorLog2_eq hn' hd']
    omega
  rw [toRat_ofNatRatio hn hd, toRat_ofNatRatio hn' hd']
  rcases Int.lt_or_eq_of_le he with he | he
  · -- the greater number has the greater last bit, and with it all its bits
    have hs := steps_le hn hd
    have hs' := le_steps hn' hd' (Int.lt_of_le_of_lt (Int.le_max_right ..) he)
    have hp : (precision : Int) + quantum n d ≤ (precision - 1 : Nat) + quantum n' d' := by
      rw [precision]
      omega
    calc (steps n d : Rat) * 2 ^ quantum n d
        ≤ twoTo precision * 2 ^ quantum n d          := by gcongr
      _ = 2 ^ (precision + quantum n d)              := (two_zpow_add ..).symm
      _ ≤ 2 ^ ((precision - 1 : Nat) + quantum n' d') := zpow_le_zpow_right₀ one_le_two hp
      _ = twoTo (precision - 1) * 2 ^ quantum n' d'  := two_zpow_add ..
      _ ≤ steps n' d' * 2 ^ quantum n' d'            := by gcongr
  · have hs := steps_mono hd hd' h he
    rw [he]
    gcongr

theorem ofNatRatio_mono (hd : 0 < d) (hd' : 0 < d') (h : n * d' ≤ n' * d) :
    (ofNatRatio n d).toRat ≤ (ofNatRatio n' d').toRat := by
  rcases Nat.eq_zero_or_pos n with rfl | hn
  · have hz : (ofNatRatio 0 d).toRat = 0 := by simp [ofNatRatio, zero, toRat]
    exact hz ▸ ofNatRatio_nonneg n' d'
  · exact ofNatRatio_mono_of_pos hn hd hd' h

theorem ofRatio_natCast (n d : Nat) : ofRatio n d = ofNatRatio n d := by
  have hs : ¬(n : Int).sign * (d : Int).sign < 0 := by
    rw [← Int.sign_mul, ← Nat.cast_mul, not_lt]
    exact Int.sign_nonneg_iff.2 (Int.natCast_nonneg _)
  rw [ofRatio, if_neg hs, Int.natAbs_natCast, Int.natAbs_natCast]

theorem toRat_eq_zero {x : Binary64} : x.toRat = 0 ↔ x.significand = 0 := by
  rw [toRat, mul_eq_zero, or_iff_left (zpow_ne_zero x.exponent two_ne_zero), Int.cast_eq_zero]

theorem toRat_neg (x : Binary64) : (-x).toRat = -x.toRat := by
  show ((-x.significand : Int) : Rat) * 2 ^ x.exponent = -(x.significand * 2 ^ x.exponent)
  rw [Int.cast_neg, neg_mul]

theorem leastExponent_le_ofNatRatio (n d : Nat) : leastExponent ≤ (ofNatRatio n d).exponent := by
  by_cases h : n = 0 ∨ d = 0
  case pos => simp [ofNatRatio, h, zero]
  case neg =>
    have hq : leastExponent ≤ quantum n d := Int.le_max_right ..
    rw [ofNatRatio_eq (by omega) (by omega)]
    split
    · exact Int.le_add_one hq
    · exact hq

theorem leastExponent_le_ofRatio (n d : Int) : leastExponent ≤ (ofRatio n d).exponent := by
  unfold ofRatio
  split <;> exact leastExponent_le_ofNatRatio ..

-- Numbers that are not less than the least positive one do not become zero.
theorem significand_ofNatRatio_ne_zero (hd : 0 < d) (h : d ≤ n * twoTo (-leastExponent).toNat) :
    (ofNatRatio n d).significand ≠ 0 := by
  have hl : ofNatRatio 1 (twoTo (-leastExponent).toNat) = ⟨1, leastExponent⟩ := by decide +kernel
  have hp : (0 : Rat) < (ofNatRatio 1 (twoTo (-leastExponent).toNat)).toRat := by
    rw [hl, toRat]
    positivity
  have hm := ofNatRatio_mono (twoTo_pos _) hd ((Nat.one_mul d).trans_le h)
  intro hz
  rw [toRat, toRat, hz, Int.cast_zero, zero_mul] at hm
  exact absurd hp (not_lt.2 hm)

theorem significand_ofRatio_ne_zero {n d : Int} (hd : d ≠ 0)
    (h : d.natAbs ≤ n.natAbs * twoTo (-leastExponent).toNat) : (ofRatio n d).significand ≠ 0 := by
  have hs := significand_ofNatRatio_ne_zero (Int.natAbs_pos.2 hd) h
  unfold ofRatio
  split
  · exact neg_ne_zero.2 hs
  · exact hs

-- The significand over any lesser power of two.
theorem toRat_at (x : Binary64) {e : Int} (h : e ≤ x.exponent) :
    ((x.significand * twoTo (x.exponent - e).toNat : Int) : Rat) * 2 ^ e = x.toRat := by
  obtain ⟨k, hk⟩ := Int.le.dest h
  have hn : (x.exponent - e).toNat = k := by omega
  rw [hn, toRat, ← hk, Int.add_comm, two_zpow_add]
  push_cast
  ring

theorem significand_add_ne_zero {x y : Binary64} (hx : leastExponent ≤ x.exponent)
    (hy : leastExponent ≤ y.exponent) (h : x.toRat + y.toRat ≠ 0) : (x + y).significand ≠ 0 := by
  have he : leastExponent ≤ min x.exponent y.exponent := Int.le_min.2 ⟨hx, hy⟩
  rw [← x.toRat_at (Int.min_le_left ..), ← y.toRat_at (Int.min_le_right ..), ← add_mul,
    ← Int.cast_add] at h
  have hn := Int.cast_ne_zero.1 (left_ne_zero_of_mul h)
  show (ofDyadic _ (min x.exponent y.exponent)).significand ≠ 0
  generalize min x.exponent y.exponent = e at he hn
  generalize x.significand * _ + y.significand * _ = s at hn
  have hw : twoTo (-e).toNat ≤ twoTo (-leastExponent).toNat := twoTo_le (by omega)
  have hl : 1 ≤ (s * twoTo e.toNat).natAbs := by
    rw [Int.natAbs_mul]
    exact Nat.mul_pos (Int.natAbs_pos.2 hn) (twoTo_pos _)
  refine significand_ofRatio_ne_zero (Int.natCast_ne_zero.2 (twoTo_pos _).ne') ?_
  exact Nat.le_trans hw (Nat.le_mul_of_pos_left _ hl)

theorem toRat_ofInt_zero : (ofInt 0).toRat = 0 := by
  have h : ofInt 0 = zero := rfl
  rw [h, toRat, zero, Int.cast_zero, zero_mul]

theorem toRat_ofInt_one : (ofInt 1).toRat = 1 := by
  have h : ofInt 1 = ⟨twoTo 52, -52⟩ := rfl
  rw [h, toRat]
  norm_num [twoTo]

theorem one_le_toRat_ofInt {n : Int} (h : 1 ≤ n) : 1 ≤ (ofInt n).toRat := by
  lift n to Nat using by omega
  have hm : (ofNatRatio 1 1).toRat ≤ (ofNatRatio n 1).toRat :=
    ofNatRatio_mono Nat.one_pos Nat.one_pos (by omega)
  rw [← ofRatio_natCast, ← ofRatio_natCast] at hm
  exact toRat_ofInt_one ▸ hm

theorem ofInt_neg {n : Nat} (h : 0 < n) : ofInt (-n) = -ofInt n := by
  have hs : (-n : Int).sign * (1 : Int).sign < 0 := by
    rw [Int.sign_neg, Int.sign_eq_one_of_pos (mod_cast h)]
    decide
  rw [ofInt, ofRatio, if_pos hs, Int.natAbs_neg, ofInt, ← Nat.cast_one, ofRatio_natCast]
  rfl

theorem toRat_ofInt_le {n : Int} (h : n ≤ -1) : (ofInt n).toRat ≤ -1 := by
  obtain ⟨m, rfl⟩ := Int.exists_eq_neg_ofNat (by omega : n ≤ 0)
  rw [ofInt_neg (by omega), toRat_neg, neg_le_neg_iff]
  exact one_le_toRat_ofInt (by omega)

end Binary64

end TermReduction
