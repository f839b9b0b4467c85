import TermReduction.Proofs.Fixed.Value
import TermReduction.Proofs.Number.Value

/-!
How divisions end. A divisor is checked as it is, but a division with reals takes it in fixed point,
where a fraction that is not zero may have become zero.
-/

namespace TermReduction

namespace Number

variable {v w : Number}

-- What is less than half a unit in the last place is nothing in fixed point.
theorem units_toFixed_eq_zero_iff (hw : w.WellFormed) :
    w.toFixed.units = 0 ↔ 2 * Fixed.unitsPerOne * |w.toRat| < 1 := by
  cases w
  case integer n  =>
    rw [toRat, ← Fixed.toRat_ofInt]
    exact Fixed.units_eq_zero_iff
  case rational q => exact Fixed.ofRatio_eq_zero_iff (Fraction.Reduced.ne_zero hw)
  case real x     => exact Fixed.units_eq_zero_iff

theorem isReal_eq_false_of_units_toFixed (hw : w.WellFormed) (hz : w.toRat ≠ 0)
    (h : w.toFixed.units = 0) : w.isReal = false := by
  cases w
  case real x => exact absurd ((isZero_iff hw).1 h) hz
  all_goals rfl

-- How a division by `w` ends, of a real or of another number.
inductive DivisionEnds (isReal : Bool) (w : Number) : Except Error Number → Prop
  | value {u} :
    w.toRat ≠ 0 → (isReal → 1 ≤ 2 * Fixed.unitsPerOne * |w.toRat|) → DivisionEnds isReal w (.ok u)
  | zero : w.toRat = 0 → DivisionEnds isReal w (.error (.domain (.number w) .differentFrom 0))
  | lost :
    isReal → w.toRat ≠ 0 → 2 * Fixed.unitsPerOne * |w.toRat| < 1 →
      DivisionEnds isReal w (.error .divisionByZero)

-- Behind the check of the divisor only divisors other than zero are left.
theorem DivisionEnds.of_check {isReal : Bool} {x : Except Error Number} (hw : w.WellFormed)
    (h : w.toRat ≠ 0 → DivisionEnds isReal w x) :
    DivisionEnds isReal w (w.ensureNonZero >>= fun _ => x) := by
  by_cases hz : w.toRat = 0
  case pos =>
    rw [ensureNonZero_of_eq hw hz]
    exact .zero hz
  case neg =>
    rw [ensureNonZero_of_ne hw hz]
    exact h hz

theorem divisionEnds_inv (hv : v.WellFormed) : DivisionEnds false v v.inv := by
  refine .of_check hv fun hz => ?_
  split
  case isTrue hr =>
    have hu : v.toFixed.toDecimal.coefficient ≠ 0 := by
      intro h
      rw [isReal_eq_false_of_units_toFixed hv hz h] at hr
      contradiction
    rw [Fixed.quotient, if_neg hu]
    exact .value hz (absurd · Bool.false_ne_true)
  case isFalse   => exact .value hz (absurd · Bool.false_ne_true)

theorem divisionEnds_div (v : Number) (hw : w.WellFormed) : DivisionEnds v.isReal w (v.div w) := by
  refine .of_check hw fun hz => ?_
  split
  case isTrue hr  =>
    rw [Fixed.quotient]
    split
    case isTrue hu  =>
      have hwr : w.isReal = false := isReal_eq_false_of_units_toFixed hw hz hu
      rw [hwr, Bool.or_false] at hr
      exact .lost hr hz ((units_toFixed_eq_zero_iff hw).1 hu)
    case isFalse hu =>
      exact .value hz fun _ => not_lt.1 (mt (units_toFixed_eq_zero_iff hw).2 hu)
  case isFalse hr =>
    rw [Bool.or_eq_true, not_or] at hr
    exact .value hz fun h => absurd h hr.1

end Number

namespace Operator

open Number (DivisionEnds)

variable {v w : Number} {vs : List Number}

-- A division fails at a zero, which it names, and where a real is divided by a fraction that is
-- nothing in fixed point, which it does not name. All other divisions have values.
theorem divisionEnds_apply [Binary64.Elementary] (hv : v.WellFormed) (hw : w.WellFormed)
    (hvs : ∀ w ∈ vs, w.WellFormed) :
    (DivisionEnds false v v.inv ∧ DivisionEnds false v (div.apply [v])) ∧
      DivisionEnds v.isReal w (v.div w) ∧
      DivisionEnds v.isReal (.product (w :: vs)) (div.apply (v :: w :: vs)) := by
  have hp : (Number.product (w :: vs)).WellFormed := .product (List.forall_mem_cons.2 ⟨hw, hvs⟩)
  exact ⟨⟨Number.divisionEnds_inv hv, Number.divisionEnds_inv hv⟩, Number.divisionEnds_div v hw,
    Number.divisionEnds_div v hp⟩

open scoped Binary64.Rounded

-- One and a half has a quotient by a third, but none by a third and nothing.
theorem divisionEnds_apply_third :
    let v := Number.real ⟨1500000000000000⟩
    let w := Number.rational ⟨1, 3⟩
    let z := Number.integer 0
    v.WellFormed ∧ w.WellFormed ∧ z.WellFormed ∧ (∃ u, v.div w = .ok u) ∧
      div.apply [v, w, z] = .error (.domain (.number (w.mul z)) .differentFrom 0) := by
  intro v w z
  have hw : w.WellFormed := by decide
  have hz : ∀ v ∈ [z], v.WellFormed := by decide
  have hp : (w.mul z).toRat = 0 := by decide +kernel
  have hl : 1 ≤ 2 * Fixed.unitsPerOne * |w.toRat| := by decide +kernel
  obtain ⟨-, h₁, h₂⟩ := divisionEnds_apply (v := v) trivial hw hz
  refine ⟨trivial, hw, trivial, ?quotient, ?refusal⟩
  case quotient =>
    generalize v.div w = x at h₁ ⊢
    cases h₁
    case value u _ _   => exact ⟨u, rfl⟩
    case zero h        => exact absurd h (by decide +kernel)
    case lost h        => exact absurd h (not_lt.2 hl)
  case refusal =>
    generalize div.apply [v, w, z] = x at h₂ ⊢
    cases h₂
    case value h _     => exact absurd hp h
    case zero          => rfl
    case lost h _      => exact absurd hp h

-- One and a half by a tenth of a unit in the last place.
theorem div_of_small_fraction :
    let v := Number.real ⟨1500000000000000⟩
    let w := Number.rational ⟨1, 10000000000000000⟩
    w.WellFormed ∧ w.toFixed.units = 0 ∧ v.div w = .error .divisionByZero ∧
      div.apply [v, w] = .error .divisionByZero := by
  decide +kernel

end Operator

end TermReduction
