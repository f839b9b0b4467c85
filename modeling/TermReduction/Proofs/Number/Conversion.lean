import TermReduction.Proofs.Fixed.Closest
import TermReduction.Proofs.Number.Rounded
import TermReduction.Proofs.Truncation

/-!
Conversions of numbers. Each of them sees the value alone, whatever kind the number is of: the fraction is
the value in lowest terms, the integer is the value cut off toward zero, and the fixed-point number is the
one nearest to the value. So it makes no difference whether a number is taken for a fraction first.
-/

namespace TermReduction.Number

variable {v w : Number}

theorem toInt_eq (hv : v.WellFormed) : v.toInt = towardZero v.toRat := by
  cases v
  case integer n  => exact (towardZero_intCast n).symm
  case rational q => exact Fraction.Reduced.truncate_eq_towardZero hv
  case real x     => exact x.truncate_eq_towardZero

theorem toFraction_eq (hv : v.WellFormed) : v.toFraction = ⟨v.toRat.num, v.toRat.den⟩ :=
  toRat_toFraction v ▸ hv.toFraction.eq_num_den

theorem toInt_congr (hv : v.WellFormed) (hw : w.WellFormed) (h : v.toRat = w.toRat) : v.toInt = w.toInt := by
  rw [toInt_eq hv, toInt_eq hw, h]

theorem toFixed_congr (hv : v.WellFormed) (hw : w.WellFormed) (h : v.toRat = w.toRat) :
    v.toFixed = w.toFixed := by
  rw [toFixed_eq hv, toFixed_eq hw, h]

-- Dividing the fraction of a number out gives what the number is in fixed point, be it a division of
-- integers or of decimals.
theorem ratio_toFraction (hv : v.WellFormed) :
    Fixed.ratio v.toFraction.numerator v.toFraction.denominator = .ok v.toFixed := by
  rw [Fixed.ratio_eq _ hv.toFraction.ne_zero, toFixed_eq hv, ← toRat_toFraction]
  rfl

theorem quotient_toFraction (hv : v.WellFormed) :
    Fixed.quotient (.ofInt v.toFraction.numerator) (.ofInt v.toFraction.denominator) = .ok v.toFixed := by
  have hd : (Decimal.ofInt v.toFraction.denominator).toRat ≠ 0 := by
    rw [Decimal.toRat_ofInt]
    exact Int.cast_ne_zero.2 hv.toFraction.ne_zero
  rw [Fixed.quotient_eq _ hd, Decimal.toRat_ofInt, Decimal.toRat_ofInt, toFixed_eq hv, ← toRat_toFraction]
  rfl

-- All conversions of a number are conversions of its value. Dividing its fraction out gives it in fixed
-- point, so a real comes back from its fraction.
theorem conversions_agree (hv : v.WellFormed) :
    v.toFraction = ⟨v.toRat.num, v.toRat.den⟩ ∧
    v.toInt = towardZero v.toRat ∧
    v.toFixed = .nearest v.toRat ∧
    (v.isRational = false → v.toFixed.toRat = v.toRat) ∧
    (v.IsZero ↔ v.toRat = 0) ∧
    (v.IsPositive ↔ 0 < v.toRat) ∧
    v.toInt = (rational v.toFraction).toInt ∧
    Fixed.ratio v.toFraction.numerator v.toFraction.denominator = .ok v.toFixed ∧
    ∀ x : Fixed, let q := (real x).toFraction
      Fixed.ratio q.numerator q.denominator = .ok x ∧
      Fixed.quotient (.ofInt q.numerator) (.ofInt q.denominator) = .ok x ∧
      (rational q).toFixed = x := by
  refine ⟨toFraction_eq hv, toInt_eq hv, toFixed_eq hv, fun hr => ?fixed, isZero_iff hv, isPositive_iff hv,
    toInt_congr hv hv.toFraction (toRat_toFraction v).symm, ratio_toFraction hv, fun x => ?real⟩
  case fixed => rw [toRat_toFixed hv, fixedValue_eq hr]
  case real  =>
    have hx : (real x).WellFormed := trivial
    have hq : (rational (real x).toFraction).WellFormed := hx.toFraction
    exact ⟨ratio_toFraction hx, quotient_toFraction hx, toFixed_congr hq hx (toRat_toFraction _)⟩

-- Two units and a half below minus three.
theorem conversions_agree_half :
    let v := rational ⟨-1200000000000001, 400000000000000⟩
    let x : Fixed := ⟨-3000000000000003⟩
    v.WellFormed ∧ v.toInt = -3 ∧ v.toFixed = x ∧ ¬v.IsZero ∧ ¬v.IsPositive ∧
      Fixed.ratio v.toFraction.numerator v.toFraction.denominator = .ok x ∧
      Fixed.ratio (real x).toFraction.numerator (real x).toFraction.denominator = .ok x := by
  intro v x
  have hv : v.WellFormed := by decide +kernel
  obtain ⟨-, hi, hf, -, hz, hp, -, hr, hx⟩ := conversions_agree hv
  have hn : v.toFixed = x := hf.trans (by decide +kernel)
  exact ⟨hv, hi.trans (by decide +kernel), hn, mt hz.1 (by decide +kernel), mt hp.1 (by decide +kernel),
    hn ▸ hr, (hx x).1⟩

end TermReduction.Number
