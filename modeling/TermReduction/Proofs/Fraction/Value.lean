import Mathlib.Algebra.Field.Basic
import Mathlib.Algebra.Order.Field.Rat
import Mathlib.Data.Int.Cast.Field
import Mathlib.Data.Int.Cast.Lemmas
import Mathlib.Data.Rat.Lemmas
import TermReduction.Proofs.Number.WellFormed

/-!
The numbers that fractions denote. Sums, products and negatives of fractions denote those of their
numbers, and the inverse of a fraction denotes the inverse of its number, also if that is zero.
-/

namespace TermReduction.Fraction

variable {q r : Fraction}

theorem toRat_ofInt (n : Int) : (ofInt n).toRat = n := by
  simp [toRat, ofInt]

-- Neither the sign nor the common divisor that is cancelled changes the quotient.
theorem toRat_reduce (n : Int) {d : Int} (hd : d ≠ 0) : (reduce n d).toRat = n / d := by
  have hg : ((n.gcd d : Int) : Rat) ≠ 0 := by
    have := Int.gcd_pos_of_ne_zero_right n hd
    norm_cast
    omega
  have hs : (d.sign : Rat) ≠ 0 := by simpa using hd
  have hn : (n.gcd d : Int) ∣ d.sign * n := dvd_mul_of_dvd_right (Int.gcd_dvd_left ..) _
  have hm : (n.gcd d : Int) ∣ d.sign * d := dvd_mul_of_dvd_right (Int.gcd_dvd_right ..) _
  rw [toRat, reduce_eq_gcd, Int.cast_div hn hg, Int.cast_div hm hg, div_div_div_cancel_right₀ hg,
    Int.cast_mul, Int.cast_mul, mul_div_mul_left _ _ hs]

theorem toRat_neg (q : Fraction) : (-q).toRat = -q.toRat := by
  show (((-q.numerator : Int) : Rat) / q.denominator) = -q.toRat
  rw [toRat, Int.cast_neg, neg_div]

theorem toRat_add (hq : q.denominator ≠ 0) (hr : r.denominator ≠ 0) :
    (q + r).toRat = q.toRat + r.toRat := by
  have hq' : (q.denominator : Rat) ≠ 0 := by exact_mod_cast hq
  have hr' : (r.denominator : Rat) ≠ 0 := by exact_mod_cast hr
  show (reduce _ _).toRat = q.toRat + r.toRat
  rw [toRat_reduce _ (Int.mul_ne_zero hq hr), toRat, toRat, div_add_div _ _ hq' hr']
  push_cast
  rfl

theorem toRat_sub (hq : q.denominator ≠ 0) (hr : r.denominator ≠ 0) :
    (q - r).toRat = q.toRat - r.toRat :=
  calc (q + -r).toRat
    _ = q.toRat + (-r).toRat := toRat_add hq hr
    _ = q.toRat - r.toRat    := by rw [toRat_neg, sub_eq_add_neg]

theorem toRat_mul (hq : q.denominator ≠ 0) (hr : r.denominator ≠ 0) :
    (q * r).toRat = q.toRat * r.toRat := by
  show (reduce _ _).toRat = q.toRat * r.toRat
  rw [toRat_reduce _ (Int.mul_ne_zero hq hr), toRat, toRat, div_mul_div_comm]
  push_cast
  rfl

theorem toRat_inv (q : Fraction) : q.inv.toRat = q.toRat⁻¹ := by
  unfold inv
  split
  case isTrue  => rw [toRat, toRat, Int.cast_neg, Int.cast_neg, neg_div_neg_eq, inv_div]
  case isFalse => rw [toRat, toRat, inv_div]

-- Over a denominator that divides the numerator as well nothing but one is left.
theorem Reduced.denominator_eq_one_iff (h : q.Reduced) :
    q.denominator = 1 ↔ ∃ n : Int, q.toRat = n := by
  have hd : (q.denominator : Rat) ≠ 0 := Int.cast_ne_zero.2 h.ne_zero
  constructor
  case mp =>
    intro h₁
    exact ⟨q.numerator, by rw [toRat, h₁, Int.cast_one, div_one]⟩
  case mpr =>
    rintro ⟨n, hn⟩
    rw [toRat, div_eq_iff hd, ← Int.cast_mul, Int.cast_inj] at hn
    have hg := h.coprime
    rw [hn, Int.gcd_mul_left_left] at hg
    have := h.pos
    omega

theorem Reduced.toRat_eq_zero (h : q.Reduced) : q.toRat = 0 ↔ q.numerator = 0 := by
  have hd : (q.denominator : Rat) ≠ 0 := by exact_mod_cast h.ne_zero
  rw [toRat, div_eq_zero_iff, Int.cast_eq_zero, or_iff_left hd]

-- In lowest terms a number has one fraction.
theorem Reduced.eq_of_toRat_eq (hq : q.Reduced) (hr : r.Reduced) (h : q.toRat = r.toRat) : q = r := by
  obtain ⟨hn, hd⟩ := Rat.div_int_inj hq.pos hr.pos hq.coprime hr.coprime h
  cases q
  cases r
  cases hn
  cases hd
  rfl

theorem Reduced.eq_num_den (h : q.Reduced) : q = ⟨q.toRat.num, q.toRat.den⟩ :=
  h.eq_of_toRat_eq ⟨Int.natCast_pos.2 q.toRat.den_pos, q.toRat.reduced⟩ (Rat.num_div_den q.toRat).symm

end TermReduction.Fraction
