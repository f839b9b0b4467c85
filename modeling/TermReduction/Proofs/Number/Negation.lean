import Mathlib.Data.List.TFAE
import Mathlib.Tactic.TFAE
import TermReduction.Proofs.Fixed.Negation
import TermReduction.Proofs.Number.Value
import TermReduction.Proofs.Term.Evaluation

/-!
The negation of numbers. That of integers and fractions is exact, and that of reals is exact for those
whose digits it keeps; all laws of the negative hold of the same numbers.
-/

namespace TermReduction

namespace Number

variable {v w : Number}

-- The number of the same kind that has the opposite value.
def opposite : Number → Number
  | integer n  => integer (-n)
  | rational q => rational (-q)
  | real x     => real ⟨-x.units⟩

-- A number whose negative is its opposite.
def NegatesExactly : Number → Prop
  | real x => x.NegatesExactly
  | _      => True

theorem opposite_opposite (v : Number) : v.opposite.opposite = v := by
  cases v
  case integer n  => exact congrArg integer (Int.neg_neg n)
  case rational q => exact congrArg (rational ⟨·, q.denominator⟩) (Int.neg_neg q.numerator)
  case real x     => exact congrArg (real ⟨·⟩) (Int.neg_neg x.units)

theorem toRat_opposite (v : Number) : v.opposite.toRat = -v.toRat := by
  cases v
  case integer n  => exact Int.cast_neg n
  case rational q => exact Fraction.toRat_neg q
  case real x     => exact Fixed.toRat_opposite x

theorem toFixed_opposite (v : Number) : v.opposite.toFixed = ⟨-v.toFixed.units⟩ := by
  cases v
  case integer n  => exact congrArg Fixed.mk (Int.neg_mul ..)
  case rational q =>
    show Fixed.mk (roundHalfAway (-q.numerator * _) q.denominator) = ⟨-roundHalfAway _ _⟩
    rw [Int.neg_mul, roundHalfAway_neg_left]
  case real x     => rfl

theorem WellFormed.opposite (h : v.WellFormed) : v.opposite.WellFormed := by
  cases v
  case rational q => exact Fraction.Reduced.neg h
  all_goals trivial

-- A difference is the sum with the opposite, in every pair of kinds.
theorem sub_eq_add_opposite (v w : Number) : v.sub w = v.add w.opposite := by
  have hd : v.toFixed.toDecimal - w.toFixed.toDecimal =
      v.toFixed.toDecimal + w.opposite.toFixed.toDecimal := by
    rw [toFixed_opposite]
    rfl
  cases v <;> cases w
  case integer.integer m n => exact congrArg integer Int.sub_eq_add_neg
  case integer.rational    => rfl
  case rational.integer    => rfl
  case rational.rational   => rfl
  all_goals exact congrArg ofDecimal hd

theorem toRat_zero_add (hw : w.WellFormed) : ((integer 0).add w).toRat = w.toRat := by
  cases hr : w.isReal
  case false =>
    have h := (Denotes.integer 0).add ⟨hw, hr, rfl⟩
    rw [h.toRat_eq, Int.cast_zero, zero_add]
  case true  =>
    cases w <;> try contradiction
    case real x =>
      show (ofFixed (.ofDecimal ((Fixed.ofInt 0).toDecimal + x.toDecimal))).toRat = x.toRat
      rw [Fixed.toDecimal_add, Fixed.ofDecimal_scaled, toRat_ofFixed, Fixed.toRat_eq_iff]
      exact Int.zero_add _

theorem toRat_zero_sub (hv : v.WellFormed) : ((integer 0).sub v).toRat = -v.toRat := by
  rw [sub_eq_add_opposite, toRat_zero_add hv.opposite, toRat_opposite]

theorem NegatesExactly.neg_eq (h : v.NegatesExactly) : v.neg = .ok v.opposite := by
  cases v
  case real x => exact neg_real_eq_ok.2 ⟨_, Fixed.NegatesExactly.negate_eq h, rfl⟩
  all_goals rfl

theorem NegatesExactly.opposite (h : v.NegatesExactly) : v.opposite.NegatesExactly := by
  cases v
  case real x => exact Fixed.NegatesExactly.opposite h
  all_goals trivial

theorem negatesExactly_of_neg (h : v.neg = .ok w) : w.NegatesExactly := by
  cases v
  case real x =>
    obtain ⟨y, hx, rfl⟩ := neg_real_eq_ok.1 h
    exact Fixed.negatesExactly_of_negate hx
  all_goals
    cases h
    trivial

theorem negatesExactly_of_toRat (h : v.neg = .ok w) (hw : w.toRat = -v.toRat) : v.NegatesExactly := by
  cases v
  case real x =>
    obtain ⟨y, hx, rfl⟩ := neg_real_eq_ok.1 h
    exact Fixed.negatesExactly_of_toRat hx hw
  all_goals trivial

theorem abs_neg_add_le (h : v.neg = .ok w) : 2 * 10 ^ 27 * |w.toRat + v.toRat| ≤ |v.toRat| := by
  by_cases hv : v.NegatesExactly
  case pos =>
    rw [hv.neg_eq] at h
    cases h
    rw [toRat_opposite, neg_add_cancel, abs_zero, mul_zero]
    exact abs_nonneg _
  case neg =>
    cases v
    case real x =>
      obtain ⟨y, hx, rfl⟩ := neg_real_eq_ok.1 h
      have hp : (tenTo (Fixed.negationPrecision - 1) : Rat) = 10 ^ 27 := Nat.cast_pow 10 27
      exact hp ▸ Fixed.abs_add_le_of_negate hx
    all_goals exact absurd trivial hv

end Number

namespace Term

open Number

section

variable [Binary64.Elementary] {b : Bindings} {t : Term} {v : Number}

theorem eval_neg (ht : t.eval b = .ok v) : (operation .sub [t]).eval b = v.neg := by
  rw [eval, evalAll, ht]
  rfl

theorem eval_zero_sub (ht : t.eval b = .ok v) :
    (operation .sub [literal (.integer 0), t]).eval b = .ok ((integer 0).sub v) := by
  rw [eval, evalAll, eval, evalAll, ht]
  rfl

-- The laws of the negative all hold of the same numbers, those that have few enough digits. The negative
-- of another number, if there is one, is off by at most half a unit of the last digit that it keeps.
theorem neg_laws_tfae (hv : v.WellFormed) (ht : t.eval b = .ok v) :
    [v.NegatesExactly,
      ∃ w, v.neg = .ok w ∧ w.toRat = -v.toRat,
      ∃ w, v.neg = .ok w ∧ w.neg = .ok v,
      ∃ w, v.neg = .ok w ∧ ∀ u : Number, (u.sub v).toRat = (u.add w).toRat,
      ∃ w z, (operation .sub [t]).eval b = .ok w ∧
        (operation .sub [literal (.integer 0), t]).eval b = .ok z ∧ w.toRat = z.toRat].TFAE ∧
      ∀ w, v.neg = .ok w → 2 * 10 ^ 27 * |w.toRat + v.toRat| ≤ |v.toRat| := by
  rw [eval_neg ht, eval_zero_sub ht]
  refine ⟨?laws, fun _ => abs_neg_add_le⟩
  case laws =>
    tfae_have 1 → 2 := fun h => ⟨_, h.neg_eq, toRat_opposite v⟩
    tfae_have 1 → 3 := fun h => by
      refine ⟨_, h.neg_eq, ?_⟩
      rw [h.opposite.neg_eq, opposite_opposite]
    tfae_have 1 → 4 := fun h => ⟨_, h.neg_eq, fun u => by rw [sub_eq_add_opposite]⟩
    tfae_have 2 → 1 := fun ⟨w, h, hw⟩ => negatesExactly_of_toRat h hw
    tfae_have 3 → 1 := fun ⟨w, _, h⟩ => negatesExactly_of_neg h
    tfae_have 4 → 2 := fun ⟨w, h, hw⟩ => by
      refine ⟨w, h, ?_⟩
      rw [← toRat_zero_sub hv, hw, toRat_zero_add (hv.neg h)]
    tfae_have 2 → 5 := fun ⟨w, h, hw⟩ => ⟨w, _, h, rfl, hw.trans (toRat_zero_sub hv).symm⟩
    tfae_have 5 → 2 := fun ⟨w, z, h, hz, hw⟩ => by
      cases hz
      exact ⟨w, h, hw.trans (toRat_zero_sub hv)⟩
    tfae_finish

end

open scoped Binary64.Rounded

-- Minus two and a half, bound to a name.
theorem neg_laws_tfae_bound :
    let v := Number.real ⟨-2500000000000000⟩
    let b := Bindings.empty.insert "x" v
    v.WellFormed ∧ (identifier "x").eval b = .ok v ∧ (∃ w, v.neg = .ok w ∧ w.neg = .ok v) ∧
      ∃ w z, (operation .sub [identifier "x"]).eval b = .ok w ∧
        (operation .sub [literal (.integer 0), identifier "x"]).eval b = .ok z ∧
        w.toRat = z.toRat := by
  intro v b
  have hs : v.toFixed.units.natAbs < tenTo 16 := by decide
  have hv : v.NegatesExactly :=
    ⟨⟨25, 14, by decide, by decide⟩, Nat.lt_of_lt_of_le hs (tenTo_le (by decide))⟩
  have ht : (identifier "x").eval b = .ok v := by decide +kernel
  have hw : v.WellFormed := trivial
  have h := (neg_laws_tfae hw ht).1
  exact ⟨hw, ht, (h.out 0 2).1 hv, (h.out 0 4).1 hv⟩

-- Of twenty digits before the point and nine behind it the last one is lost.
theorem neg_of_many_digits :
    let v := Number.real ⟨12345678901234567890123456789000000⟩
    let w := Number.real ⟨-12345678901234567890123456790000000⟩
    let z := Number.real ⟨-12345678901234567890123456789000000⟩
    v.neg = .ok w ∧ w.toRat ≠ -v.toRat ∧ w.neg ≠ .ok v ∧
      ((integer 0).sub v).toRat ≠ ((integer 0).add w).toRat ∧
      (operation .sub [literal v]).eval .empty = .ok w ∧
      (operation .sub [literal (.integer 0), literal v]).eval .empty = .ok z ∧ w.toRat ≠ z.toRat := by
  decide +kernel

end Term

end TermReduction
