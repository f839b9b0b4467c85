import Mathlib.Data.Rat.Floor
import Mathlib.Data.Sign.Basic
import TermReduction.Proofs.Decimal.Value
import TermReduction.Proofs.Fixed.Value

/-!
The integer part of a number as a function of its value: it is cut off toward zero, however the number is
represented.
-/

namespace TermReduction

variable {q : Rat} {n : Int}

-- The integer part of a rational number, cut off toward zero.
def towardZero (q : Rat) : Int :=
  if 0 ≤ q then ⌊q⌋ else ⌈q⌉

theorem towardZero_of_nonneg (h : 0 ≤ q) : towardZero q = ⌊q⌋ :=
  if_pos h

theorem towardZero_of_nonpos (h : q ≤ 0) : towardZero q = ⌈q⌉ := by
  rcases h.lt_or_eq with h | rfl
  · exact if_neg (not_le.2 h)
  · rw [towardZero, if_pos le_rfl, Int.floor_zero, Int.ceil_zero]

theorem towardZero_neg (q : Rat) : towardZero (-q) = -towardZero q := by
  rcases le_total 0 q with h | h
  · rw [towardZero_of_nonneg h, towardZero_of_nonpos (neg_nonpos.2 h), Int.ceil_neg]
  · rw [towardZero_of_nonpos h, towardZero_of_nonneg (neg_nonneg.2 h), Int.floor_neg]

theorem towardZero_intCast (n : Int) : towardZero n = n := by
  rw [towardZero, Int.floor_intCast, Int.ceil_intCast, ite_self]

-- A number and an integer on the same side of zero.
def SameSide (q : Rat) (n : Int) : Prop :=
  0 ≤ q ∧ 0 ≤ n ∨ q ≤ 0 ∧ n ≤ 0

theorem towardZero_add_intCast (h : SameSide q n) : towardZero (q + n) = towardZero q + n := by
  rcases h with ⟨hq, hn⟩ | ⟨hq, hn⟩
  · have hs : 0 ≤ q + n := add_nonneg hq (Int.cast_nonneg hn)
    rw [towardZero_of_nonneg hq, towardZero_of_nonneg hs, Int.floor_add_intCast]
  · have hs : q + n ≤ 0 := add_nonpos hq (Int.cast_nonpos.2 hn)
    rw [towardZero_of_nonpos hq, towardZero_of_nonpos hs, Int.ceil_add_intCast]

-- What is cut off has the sign of the number.
theorem sub_towardZero_nonneg (h : 0 ≤ q) : 0 ≤ q - towardZero q := by
  rw [towardZero_of_nonneg h]
  exact sub_nonneg.2 (Int.floor_le q)

theorem sub_towardZero_nonpos (h : q ≤ 0) : q - towardZero q ≤ 0 := by
  rw [towardZero_of_nonpos h]
  exact sub_nonpos.2 (Int.le_ceil q)

theorem sign_sub_towardZero (q : Rat) :
    q - towardZero q = 0 ∨ SignType.sign (q - towardZero q) = SignType.sign q := by
  rcases lt_trichotomy q 0 with hq | rfl | hq
  · exact (sub_towardZero_nonpos hq.le).eq_or_lt.imp id fun h => by rw [sign_neg h, sign_neg hq]
  · exact .inl (by rw [towardZero_of_nonneg le_rfl, Int.floor_zero, Int.cast_zero, sub_self])
  · exact (sub_towardZero_nonneg hq.le).eq_or_lt.imp Eq.symm fun h => by rw [sign_pos h, sign_pos hq]

theorem abs_sub_towardZero_lt (q : Rat) : |q - towardZero q| < 1 := by
  rcases le_total 0 q with h | h
  · rw [abs_of_nonneg (sub_towardZero_nonneg h), towardZero_of_nonneg h]
    exact Int.fract_lt_one q
  · rw [abs_of_nonpos (sub_towardZero_nonpos h), towardZero_of_nonpos h]
    linarith [Int.ceil_lt_add_one q]

theorem tdiv_eq_towardZero (n : Int) (d : Nat) : n.tdiv d = towardZero (n / d) := by
  have hnat (m : Nat) : (m : Int).tdiv d = towardZero (m / d) := by
    rw [towardZero_of_nonneg (by positivity), Rat.floor_natCast_div_natCast]
    rfl
  obtain ⟨m, rfl | rfl⟩ := n.eq_nat_or_neg
  case inl => simpa using hnat m
  case inr => simpa [Int.neg_tdiv, neg_div, towardZero_neg] using hnat m

theorem Decimal.truncate_eq_towardZero (x : Decimal) : x.truncate = towardZero x.toRat := by
  unfold truncate
  split
  case isTrue he  =>
    have hx : x.toRat = (x.coefficient * (tenTo x.exponent.toNat : Nat) : Int) := by
      rw [toRat, ← cast_tenTo he]
      push_cast
      rfl
    rw [hx, towardZero_intCast, scaleUp_eq]
  case isFalse he =>
    have hx : x.toRat = x.coefficient / (tenTo (-x.exponent).toNat : Nat) := by
      rw [cast_tenTo (by omega), zpow_neg, div_inv_eq_mul, toRat]
    rw [hx, truncateShift_eq, tdiv_eq_towardZero]

theorem Fraction.Reduced.truncate_eq_towardZero {f : Fraction} (h : f.Reduced) :
    f.truncate = towardZero f.toRat := by
  obtain ⟨d, hd⟩ := Int.eq_ofNat_of_zero_le h.pos.le
  rw [truncate, toRat, hd, Int.cast_natCast]
  exact tdiv_eq_towardZero f.numerator d

theorem Fixed.truncate_eq_towardZero (x : Fixed) : x.truncate = towardZero x.toRat :=
  tdiv_eq_towardZero x.units unitsPerOne

end TermReduction
