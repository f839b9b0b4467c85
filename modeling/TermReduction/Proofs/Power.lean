import Mathlib.Algebra.Order.Field.Power
import Mathlib.Algebra.Order.Field.Rat
import TermReduction.Power

/-!
Powers with integer exponents as quotients of natural numbers, and comparisons of quotients with them.
-/

namespace TermReduction

theorem cast_tenTo {k : Int} (h : 0 ≤ k) : ((tenTo k.toNat : Nat) : Rat) = 10 ^ k := by
  conv_rhs => rw [← Int.toNat_of_nonneg h, zpow_natCast]
  rw [tenTo, Nat.pow_eq, Nat.cast_pow, Nat.cast_ofNat]

-- A power as a quotient of two powers, one of which is one.
theorem zpow_eq_div {b : Nat} (hb : 0 < b) (k : Int) :
    (b : Rat) ^ k = (b ^ k.toNat : Nat) / (b ^ (-k).toNat : Nat) := by
  have hb : (b : Rat) ≠ 0 := Nat.cast_ne_zero.2 hb.ne'
  conv_lhs => rw [← Int.toNat_sub_toNat_neg k, zpow_sub₀ hb, zpow_natCast, zpow_natCast]
  push_cast
  rfl

theorem mul_pow_le_iff {b n d : Nat} (hb : 0 < b) (hd : 0 < d) (c : Nat) (k : Int) :
    c * (d * b ^ k.toNat) ≤ n * b ^ (-k).toNat ↔ (c : Rat) * b ^ k ≤ n / d := by
  have hp : (0 : Rat) < (b ^ (-k).toNat : Nat) := Nat.cast_pos.2 (Nat.pow_pos hb)
  rw [zpow_eq_div hb, mul_div_assoc', div_le_div_iff₀ hp (Nat.cast_pos.2 hd), ← Nat.cast_mul,
    ← Nat.cast_mul, ← Nat.cast_mul, Nat.cast_le, Nat.mul_assoc, Nat.mul_comm d]

theorem mul_twoTo_le_iff {n d : Nat} (hd : 0 < d) (c : Nat) (k : Int) :
    c * (d * twoTo k.toNat) ≤ n * twoTo (-k).toNat ↔ (c : Rat) * 2 ^ k ≤ n / d :=
  mul_pow_le_iff Nat.two_pos hd c k

theorem ten_zpow_eq_div (k : Int) : (10 : Rat) ^ k = (tenTo k.toNat : Nat) / (tenTo (-k).toNat : Nat) :=
  zpow_eq_div (by decide) k

theorem pow_le_iff {b n d : Nat} (hb : 0 < b) (hd : 0 < d) (k : Int) :
    d * b ^ k.toNat ≤ n * b ^ (-k).toNat ↔ (b : Rat) ^ k ≤ n / d := by
  have h := mul_pow_le_iff (n := n) hb hd 1 k
  rwa [Nat.one_mul, Nat.cast_one, one_mul] at h

theorem tenTo_le_iff {n d : Nat} (hd : 0 < d) (k : Int) :
    d * tenTo k.toNat ≤ n * tenTo (-k).toNat ↔ (10 : Rat) ^ k ≤ n / d :=
  pow_le_iff (by decide) hd k

theorem twoTo_pos (k : Nat) : 0 < twoTo k :=
  Nat.two_pow_pos k

theorem twoTo_le {j k : Nat} (h : j ≤ k) : twoTo j ≤ twoTo k :=
  Nat.pow_le_pow_right Nat.two_pos h

theorem two_zpow_add (p : Nat) (e : Int) : (2 : Rat) ^ (p + e) = twoTo p * 2 ^ e := by
  rw [zpow_add₀ two_ne_zero, zpow_natCast, twoTo, Nat.pow_eq, Nat.cast_pow]
  rfl

theorem ten_zpow_add (p : Nat) (e : Int) : (10 : Rat) ^ (p + e) = tenTo p * 10 ^ e := by
  rw [zpow_add₀ (by decide), zpow_natCast, tenTo, Nat.pow_eq, Nat.cast_pow]
  rfl

end TermReduction
