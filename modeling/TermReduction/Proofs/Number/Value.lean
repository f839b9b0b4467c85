import Mathlib.Algebra.Order.Field.Basic
import TermReduction.Proofs.Fraction.Value

/-!
The values of numbers, and arithmetic on integers and fractions: it gives integers and fractions
again, whose values are those of rational arithmetic, and refuses no operand but a zero divisor.
-/

namespace TermReduction

namespace Number

variable {v w : Number}

theorem toRat_toFraction (v : Number) : v.toFraction.toRat = v.toRat := by
  cases v
  case integer n  => exact Fraction.toRat_ofInt n
  case rational q => rfl
  case real x     => exact Fraction.toRat_reduce x.units (by decide)

theorem toRat_ofFraction (q : Fraction) : (ofFraction q).toRat = q.toRat := by
  unfold ofFraction
  split
  case isTrue h  => rw [toRat, Fraction.toRat, h, Int.cast_one, div_one]
  case isFalse   => rfl

theorem isReal_ofFraction (q : Fraction) : (ofFraction q).isReal = false := by
  unfold ofFraction
  split <;> rfl

theorem isZero_iff (hv : v.WellFormed) : v.IsZero ↔ v.toRat = 0 := by
  cases v
  case integer n  => exact Int.cast_eq_zero.symm
  case rational q => exact (Fraction.Reduced.toRat_eq_zero hv).symm
  case real x     =>
    have hu : (Fixed.unitsPerOne : Rat) ≠ 0 := by decide
    rw [toRat, Fixed.toRat, div_eq_zero_iff, Int.cast_eq_zero, or_iff_left hu, IsZero]

theorem isPositive_iff (hv : v.WellFormed) : v.IsPositive ↔ 0 < v.toRat := by
  cases v
  case integer n  => exact Int.cast_pos.symm
  case rational q =>
    have hd : (0 : Rat) < q.denominator := Int.cast_pos.2 hv.pos
    exact ((div_pos_iff_of_pos_right hd).trans Int.cast_pos).symm
  case real x     =>
    have hu : (0 : Rat) < Fixed.unitsPerOne := by decide
    exact ((div_pos_iff_of_pos_right hu).trans Int.cast_pos).symm

-- A zero is short in every kind, so that a refusal can name it.
theorem IsZero.writable (hz : v.IsZero) (hv : v.WellFormed) : v.Writable := by
  have h : 1 < tenTo maxDigits := Nat.lt_of_lt_of_le (by decide : 1 < tenTo 1) (tenTo_le (by decide))
  cases v
  case integer n  =>
    cases hz
    exact Nat.zero_lt_of_lt h
  case rational q =>
    have hq : q.toRat = (0 : Int) := (Fraction.Reduced.toRat_eq_zero hv).2 hz
    have hd : q.denominator = 1 := (Fraction.Reduced.denominator_eq_one_iff hv).2 ⟨0, hq⟩
    constructor
    · rw [show q.numerator = 0 from hz]
      exact Nat.zero_lt_of_lt h
    · rw [hd]
      exact h
  case real x     => trivial

theorem ensureNonZero_of_ne (hv : v.WellFormed) (h : v.toRat ≠ 0) : v.ensureNonZero = .ok () :=
  ensureNonZero_eq_ok.2 (mt (isZero_iff hv).1 h)

theorem ensureNonZero_of_eq (hv : v.WellFormed) (h : v.toRat = 0) :
    v.ensureNonZero = .error (.domain (.number v) .differentFrom 0) := by
  have hz : v.IsZero := (isZero_iff hv).2 h
  rw [ensureNonZero, if_pos hz, Error.ofOperand, if_pos (hz.writable hv)]

-- An integer, or a fraction in lowest terms, whose value is `q`.
structure Denotes (v : Number) (q : Rat) : Prop where
  wellFormed : v.WellFormed
  isReal_eq  : v.isReal = false
  toRat_eq   : v.toRat = q

namespace Denotes

variable {q r : Rat}

theorem integer (n : Int) : (integer n).Denotes n :=
  ⟨trivial, rfl, rfl⟩

theorem ofFraction {f : Fraction} (h : f.Reduced) : (ofFraction f).Denotes f.toRat :=
  ⟨wellFormed_ofFraction h, isReal_ofFraction f, toRat_ofFraction f⟩

theorem toFraction (h : v.Denotes q) : v.toFraction.Reduced ∧ v.toFraction.toRat = q :=
  ⟨h.wellFormed.toFraction, (toRat_toFraction v).trans h.toRat_eq⟩

-- What holds of the operation on integers and of that on fractions holds of numbers of both kinds.
theorem combine {onInt : Int → Int → Int} {onFraction : Fraction → Fraction → Fraction}
    {onDecimal : Decimal → Decimal → Decimal} {op : Rat → Rat → Rat}
    (hi : ∀ m n, (onInt m n : Rat) = op m n)
    (hf : ∀ {f g : Fraction}, f.Reduced → g.Reduced →
      (onFraction f g).Reduced ∧ (onFraction f g).toRat = op f.toRat g.toRat)
    (hv : v.Denotes q) (hw : w.Denotes r) :
    (combine onInt onFraction onDecimal v w).Denotes (op q r) := by
  unfold Number.combine
  split
  case h_1 m n =>
    rw [← hv.toRat_eq, ← hw.toRat_eq, toRat, toRat, ← hi]
    exact .integer _
  case h_2 =>
    obtain ⟨hvf, hvq⟩ := hv.toFraction
    obtain ⟨hwf, hwr⟩ := hw.toFraction
    obtain ⟨hr, ho⟩ := hf hvf hwf
    rw [if_neg (by simp [hv.isReal_eq, hw.isReal_eq]), ← hvq, ← hwr, ← ho]
    exact .ofFraction hr

theorem add (hv : v.Denotes q) (hw : w.Denotes r) : (v.add w).Denotes (q + r) :=
  hv.combine Int.cast_add (fun hf hg => ⟨hf.add hg, Fraction.toRat_add hf.ne_zero hg.ne_zero⟩) hw

theorem sub (hv : v.Denotes q) (hw : w.Denotes r) : (v.sub w).Denotes (q - r) :=
  hv.combine Int.cast_sub (fun hf hg => ⟨hf.sub hg, Fraction.toRat_sub hf.ne_zero hg.ne_zero⟩) hw

theorem mul (hv : v.Denotes q) (hw : w.Denotes r) : (v.mul w).Denotes (q * r) :=
  hv.combine Int.cast_mul (fun hf hg => ⟨hf.mul hg, Fraction.toRat_mul hf.ne_zero hg.ne_zero⟩) hw

theorem neg (hv : v.Denotes q) : ∃ u, v.neg = .ok u ∧ u.Denotes (-q) := by
  cases v
  case integer n  =>
    refine ⟨_, rfl, ?_⟩
    rw [← hv.toRat_eq, toRat, ← Int.cast_neg]
    exact .integer (-n)
  case rational f =>
    refine ⟨_, rfl, Fraction.Reduced.neg hv.wellFormed, rfl, ?_⟩
    rw [← hv.toRat_eq]
    exact Fraction.toRat_neg f
  case real       => exact nomatch hv.isReal_eq

theorem inv (hv : v.Denotes q) (hq : q ≠ 0) : ∃ u, v.inv = .ok u ∧ u.Denotes q⁻¹ := by
  obtain ⟨hf, hvq⟩ := hv.toFraction
  have hn : v.toFraction.numerator ≠ 0 := mt hf.toRat_eq_zero.2 (hvq ▸ hq)
  refine ⟨.ofFraction v.toFraction.inv, ?eval, ?value⟩
  case eval =>
    rw [Number.inv, ensureNonZero_of_ne hv.wellFormed (hv.toRat_eq ▸ hq), Except.ok_bind,
      if_neg (by simp [hv.isReal_eq])]
    rfl
  case value =>
    rw [← hvq, ← Fraction.toRat_inv]
    exact .ofFraction (hf.inv hn)

theorem div (hv : v.Denotes q) (hw : w.Denotes r) (hr : r ≠ 0) :
    ∃ u, v.div w = .ok u ∧ u.Denotes (q / r) := by
  obtain ⟨hf, hvq⟩ := hv.toFraction
  obtain ⟨hg, hwr⟩ := hw.toFraction
  have hi : w.toFraction.inv.Reduced := hg.inv (mt hg.toRat_eq_zero.2 (hwr ▸ hr))
  refine ⟨.ofFraction (v.toFraction * w.toFraction.inv), ?eval, ?value⟩
  case eval =>
    rw [Number.div, ensureNonZero_of_ne hw.wellFormed (hw.toRat_eq ▸ hr), Except.ok_bind,
      if_neg (by simp [hv.isReal_eq, hw.isReal_eq])]
    rfl
  case value =>
    rw [← hvq, ← hwr, div_eq_mul_inv, ← Fraction.toRat_inv, ← Fraction.toRat_mul hf.ne_zero hi.ne_zero]
    exact .ofFraction (hf.mul hi)

theorem sum {vs : List Number} {qs : List Rat} (h : List.Forall₂ Denotes vs qs) :
    (sum vs).Denotes qs.sum := by
  induction h
  case nil             => exact .integer 0
  case cons hv hvs ih =>
    rw [List.sum_cons]
    cases hvs
    case nil  => rwa [List.sum_nil, add_zero]
    case cons => exact hv.add ih

theorem product {vs : List Number} {qs : List Rat} (h : List.Forall₂ Denotes vs qs) :
    (product vs).Denotes qs.prod := by
  induction h
  case nil             => exact .integer 1
  case cons hv hvs ih =>
    rw [List.prod_cons]
    cases hvs
    case nil  => rwa [List.prod_nil, mul_one]
    case cons => exact hv.mul ih

end Denotes

end Number

end TermReduction
