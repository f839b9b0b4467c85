import TermReduction.Proofs.Fixed.Nearest
import TermReduction.Proofs.Number.Division

/-!
Arithmetic with reals. Fractions are taken to fixed point first, and the result is the exact one, rounded
once; sums and differences have no need of that.
-/

namespace TermReduction

namespace Fixed

variable (x y : Fixed)

theorem toRat_add : toRat ⟨x.units + y.units⟩ = x.toRat + y.toRat := by
  rw [toRat, toRat, toRat, Int.cast_add, add_div]

theorem toRat_nearest_add : (nearest (x.toRat + y.toRat)).toRat = x.toRat + y.toRat := by
  rw [← toRat_add, nearest_toRat]

theorem toRat_nearest_sub : (nearest (x.toRat - y.toRat)).toRat = x.toRat - y.toRat := by
  rw [sub_eq_add_neg, ← toRat_opposite, toRat_nearest_add]

theorem coefficient_toDecimal_eq_zero : x.toDecimal.coefficient = 0 ↔ x.toRat = 0 := by
  rw [← toRat_toDecimal, Decimal.toRat_eq_zero]

end Fixed

namespace Number

open Fixed (nearest unitsPerOne)

variable {v w : Number} {q : Rat}

-- The form of a number of fixed point: the integer that it is, or else the real.
inductive FixedForm (q : Rat) : Number → Prop
  | integer {n : Int} : q = n → FixedForm q (integer n)
  | real {x : Fixed} : (∀ n : Int, q ≠ n) → x.toRat = q → FixedForm q (real x)

def isRational : Number → Bool
  | rational _ => true
  | _          => false

-- The value with which a number takes part in arithmetic with reals: that of a fraction is rounded first.
def fixedValue : Number → Rat
  | rational q => (nearest q.toRat).toRat
  | v          => v.toRat

theorem FixedForm.toRat_eq : FixedForm q v → v.toRat = q
  | .integer h => h.symm
  | .real _ h  => h

theorem FixedForm.unique : FixedForm q v → FixedForm q w → v = w
  | .integer h, .integer h' => congrArg Number.integer (Int.cast_inj.1 (h.symm.trans h'))
  | .real _ h, .real _ h'   =>
    congrArg (Number.real ⟨·⟩) (Fixed.toRat_eq_iff.1 (h.trans h'.symm))
  | .integer h, .real hn _  => absurd h (hn _)
  | .real hn _, .integer h  => absurd h (hn _)

theorem fixedForm_ofFixed (x : Fixed) : FixedForm x.toRat (ofFixed x) := by
  unfold ofFixed
  split
  case isTrue h  =>
    refine .integer ?_
    conv_lhs => rw [← h.ofInt_truncate, Fixed.toRat_ofInt]
  case isFalse h => exact .real (fun n hn => h (Fixed.isWhole_iff.2 ⟨n, hn⟩)) rfl

theorem toRat_toFixed (hv : v.WellFormed) : v.toFixed.toRat = v.fixedValue := by
  cases v
  case integer n  => exact Fixed.toRat_ofInt n
  case rational q => rw [toFixed_eq hv, fixedValue, toRat]
  case real x     => rfl

theorem isRational_of_isReal (hv : v.isReal) : v.isRational = false := by
  cases v
  case real => rfl
  all_goals contradiction

theorem fixedValue_eq (hv : v.isRational = false) : v.fixedValue = v.toRat := by
  cases v
  case rational => contradiction
  all_goals rfl

theorem abs_fixedValue_sub_le (v : Number) : 2 * unitsPerOne * |v.fixedValue - v.toRat| ≤ 1 := by
  cases hr : v.isRational
  case false =>
    rw [fixedValue_eq hr, sub_self, abs_zero, mul_zero]
    exact zero_le_one
  case true  =>
    cases v <;> try contradiction
    case rational q => exact Fixed.abs_nearest_sub_le q.toRat

theorem combine_of_isReal {onInt : Int → Int → Int} {onFraction : Fraction → Fraction → Fraction}
    {onDecimal : Decimal → Decimal → Decimal} (h : v.isReal ∨ w.isReal) :
    combine onInt onFraction onDecimal v w =
      ofDecimal (onDecimal v.toFixed.toDecimal w.toFixed.toDecimal) := by
  unfold combine
  split
  case h_1 => cases h <;> contradiction
  case h_2 => exact if_pos (Bool.or_eq_true _ _ ▸ h)

section Arithmetic

variable (hv : v.WellFormed) (hw : w.WellFormed)
include hv hw

-- What an operation on decimals does to values, the operation on numbers does to them but for the rounding.
theorem fixedForm_combine {onInt : Int → Int → Int} {onFraction : Fraction → Fraction → Fraction}
    {onDecimal : Decimal → Decimal → Decimal} {op : Rat → Rat → Rat}
    (ho : ∀ x y, (onDecimal x y).toRat = op x.toRat y.toRat) (h : v.isReal ∨ w.isReal) :
    FixedForm (nearest (op v.fixedValue w.fixedValue)).toRat (combine onInt onFraction onDecimal v w) := by
  rw [combine_of_isReal h, ofDecimal, Fixed.ofDecimal_eq, ho, Fixed.toRat_toDecimal, Fixed.toRat_toDecimal,
    toRat_toFixed hv, toRat_toFixed hw]
  exact fixedForm_ofFixed _

theorem toRat_nearest_add : (nearest (v.fixedValue + w.fixedValue)).toRat = v.fixedValue + w.fixedValue := by
  rw [← toRat_toFixed hv, ← toRat_toFixed hw, Fixed.toRat_nearest_add]

theorem toRat_nearest_sub : (nearest (v.fixedValue - w.fixedValue)).toRat = v.fixedValue - w.fixedValue := by
  rw [← toRat_toFixed hv, ← toRat_toFixed hw, Fixed.toRat_nearest_sub]

variable (h : v.isReal ∨ w.isReal)
include h

theorem fixedForm_add : FixedForm (v.fixedValue + w.fixedValue) (v.add w) := by
  rw [← toRat_nearest_add hv hw]
  exact fixedForm_combine hv hw Decimal.toRat_add h

theorem fixedForm_sub : FixedForm (v.fixedValue - w.fixedValue) (v.sub w) := by
  rw [← toRat_nearest_sub hv hw]
  exact fixedForm_combine hv hw Decimal.toRat_sub h

theorem fixedForm_mul : FixedForm (nearest (v.fixedValue * w.fixedValue)).toRat (v.mul w) :=
  fixedForm_combine hv hw Decimal.toRat_mul h

theorem fixedForm_div (hq : w.fixedValue ≠ 0) :
    ∃ u, v.div w = .ok u ∧ FixedForm (nearest (v.fixedValue / w.fixedValue)).toRat u := by
  have hc : w.toFixed.toDecimal.coefficient ≠ 0 := by
    rwa [Ne, Fixed.coefficient_toDecimal_eq_zero, toRat_toFixed hw]
  have hz : w.toRat ≠ 0 := by
    intro hz
    refine hc ((units_toFixed_eq_zero_iff hw).2 ?_)
    rw [hz, abs_zero, mul_zero]
    exact one_pos
  refine ⟨.ofFixed (.ofQuotient v.toFixed.toDecimal w.toFixed.toDecimal), ?eval, ?form⟩
  case eval =>
    rw [div, ensureNonZero_of_ne hw hz, Except.ok_bind, if_pos (Bool.or_eq_true _ _ ▸ h), Fixed.quotient,
      if_neg hc]
    rfl
  case form =>
    rw [Fixed.ofQuotient_eq _ hc, Fixed.toRat_toDecimal, Fixed.toRat_toDecimal, toRat_toFixed hv,
      toRat_toFixed hw]
    exact fixedForm_ofFixed _

end Arithmetic

-- If one of two numbers is a real, only the other one can have been rounded.
theorem abs_sub_le_of_isReal (h : v.isReal ∨ w.isReal) :
    2 * unitsPerOne * (|v.fixedValue - v.toRat| + |w.fixedValue - w.toRat|) ≤ 1 := by
  cases h
  case inl hv =>
    rw [fixedValue_eq (isRational_of_isReal hv), sub_self, abs_zero, zero_add]
    exact abs_fixedValue_sub_le w
  case inr hw =>
    rw [fixedValue_eq (isRational_of_isReal hw), sub_self, abs_zero, add_zero]
    exact abs_fixedValue_sub_le v

-- Where a real takes part, sums, differences, products and quotients are those of the values in fixed
-- point, rounded once, and have the form of what comes out. Sums and differences are not rounded, so they
-- are off by no more than the rounding of a fraction that takes part.
theorem rounded_arithmetic (hv : v.WellFormed) (hw : w.WellFormed) (h : v.isReal ∨ w.isReal) :
    (FixedForm (nearest (v.fixedValue + w.fixedValue)).toRat (v.add w) ∧
      FixedForm (nearest (v.fixedValue - w.fixedValue)).toRat (v.sub w) ∧
      FixedForm (nearest (v.fixedValue * w.fixedValue)).toRat (v.mul w) ∧
      (w.fixedValue ≠ 0 →
        ∃ u, v.div w = .ok u ∧ FixedForm (nearest (v.fixedValue / w.fixedValue)).toRat u)) ∧
    ((nearest (v.fixedValue + w.fixedValue)).toRat = v.fixedValue + w.fixedValue ∧
      (nearest (v.fixedValue - w.fixedValue)).toRat = v.fixedValue - w.fixedValue) ∧
    (2 * unitsPerOne * |(v.add w).toRat - (v.toRat + w.toRat)| ≤ 1 ∧
      2 * unitsPerOne * |(v.sub w).toRat - (v.toRat - w.toRat)| ≤ 1) ∧
    v.add w = w.add v ∧ v.mul w = w.mul v := by
  have ha := fixedForm_add hv hw h
  have hs := fixedForm_sub hv hw h
  have hm := fixedForm_mul hv hw h
  have hd := toRat_nearest_add hv hw
  have hd' := toRat_nearest_sub hv hw
  have he := abs_sub_le_of_isReal h
  have hu : (0 : Rat) ≤ 2 * unitsPerOne := mul_nonneg zero_le_two Fixed.unitsPerOne_pos.le
  refine ⟨⟨hd.symm ▸ ha, hd'.symm ▸ hs, hm, fixedForm_div hv hw h⟩, ⟨hd, hd'⟩, ⟨?add, ?sub⟩,
    ?add_comm, ?mul_comm⟩
  case add      =>
    refine (mul_le_mul_of_nonneg_left ?_ hu).trans he
    rw [ha.toRat_eq, add_sub_add_comm]
    exact abs_add_le _ _
  case sub      =>
    refine (mul_le_mul_of_nonneg_left ?_ hu).trans he
    rw [hs.toRat_eq, sub_sub_sub_comm]
    exact abs_sub _ _
  case add_comm =>
    have hc := fixedForm_add hw hv h.symm
    rw [add_comm] at hc
    exact ha.unique hc
  case mul_comm =>
    have hc := fixedForm_mul hw hv h.symm
    rw [mul_comm] at hc
    exact hm.unique hc

-- Minus one unit and a half. The half of a unit is rounded away from zero.
theorem rounded_arithmetic_unit :
    let v := real ⟨-1⟩
    let w := rational ⟨1, 2⟩
    v.WellFormed ∧ w.WellFormed ∧ (v.isReal ∨ w.isReal) ∧ w.fixedValue ≠ 0 ∧
      FixedForm (-1 / unitsPerOne) (v.mul w) ∧
      (∃ u, v.div w = .ok u ∧ FixedForm (-2 / unitsPerOne) u) ∧ v.add w = w.add v := by
  intro v w
  have hv : v.WellFormed := trivial
  have hw : w.WellFormed := by decide
  have hr : v.isReal ∨ w.isReal := .inl rfl
  have hq : w.fixedValue ≠ 0 := by decide +kernel
  have hm : (nearest (v.fixedValue * w.fixedValue)).toRat = -1 / unitsPerOne := by decide +kernel
  have hd : (nearest (v.fixedValue / w.fixedValue)).toRat = -2 / unitsPerOne := by decide +kernel
  have h := rounded_arithmetic hv hw hr
  exact ⟨hv, hw, hr, hq, hm ▸ h.1.2.2.1, hd ▸ h.1.2.2.2 hq, h.2.2.2.1⟩

end Number

end TermReduction
