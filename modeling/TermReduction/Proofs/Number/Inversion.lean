import TermReduction.Proofs.Number.Rounded
import TermReduction.Proofs.Term.WellFormed

/-!
The inverse of a number is the quotient of one by it. It exchanges the parts of a fraction where the quotient
multiplies and takes out divisors, but neither way has anything left to do that the other has done.
-/

namespace TermReduction

-- One times a fraction in lowest terms is that fraction, which is in lowest terms already.
theorem Fraction.ofInt_one_mul {q : Fraction} (h : q.Reduced) : ofInt 1 * q = q := by
  have h₁ : (ofInt 1).Reduced := .ofInt 1
  refine (h₁.mul h).eq_of_toRat_eq h ?_
  rw [toRat_mul h₁.ne_zero h.ne_zero, toRat_ofInt, Int.cast_one, one_mul]

-- Quotients in fixed point depend on the value of the dividend alone.
theorem Fixed.quotient_congr {x y : Decimal} (h : x.toRat = y.toRat) (z : Decimal) :
    quotient x z = quotient y z := by
  unfold quotient
  split
  case isTrue     => rfl
  case isFalse hz => rw [ofQuotient_eq x hz, ofQuotient_eq y hz, h]

namespace Number

variable {v : Number}

theorem inv_eq_div (hv : v.WellFormed) : v.inv = (integer 1).div v := by
  by_cases hz : v.IsZero
  case pos =>
    rw [inv, div, ensureNonZero, if_pos hz, Except.error_bind, Except.error_bind]
  case neg =>
    rw [inv, div, ensureNonZero_eq_ok.2 hz, Except.ok_bind, Except.ok_bind]
    cases hr : v.isReal
    case true  =>
      have h₁ : (Decimal.ofInt 1).toRat = (integer 1).toFixed.toDecimal.toRat := by decide +kernel
      simp only [isReal, Bool.or_true, if_true, Fixed.quotient_congr h₁]
    case false =>
      have hi : v.toFraction.inv.Reduced := hv.toFraction.inv (toFraction_ne_zero hr hz)
      have h₁ : (integer 1).toFraction * v.toFraction.inv = v.toFraction.inv := Fraction.ofInt_one_mul hi
      rw [h₁, if_neg Bool.false_ne_true, if_neg (by decide)]

end Number

namespace Term

open Number (DivisionEnds)

section

variable [Binary64.Elementary]

theorem eval_inv (b : Bindings) (t : Term) : (operation .div [t]).eval b = t.eval b >>= Number.inv := by
  cases ht : t.eval b <;> simp [eval, evalAll, ht, Operator.apply]

theorem eval_one_div (b : Bindings) (t : Term) :
    (operation .div [literal (.integer 1), t]).eval b = t.eval b >>= (Number.integer 1).div := by
  cases ht : t.eval b <;> simp [eval, evalAll, ht, Operator.apply, Number.product]

-- A number other than zero has an inverse, which is the quotient of one by it, and zero is refused either way.
-- So a term that is divided into one has the same outcome whether the one is written out or not.
theorem inverses_are_quotients {v : Number} {t : Term} {b : Bindings} (hv : v.WellFormed)
    (ht : t.WellFormed) (hb : b.WellFormed) :
    (v.inv = (Number.integer 1).div v ∧ DivisionEnds false v v.inv) ∧
      (operation .div [t]).eval b = (operation .div [literal (.integer 1), t]).eval b := by
  refine ⟨⟨Number.inv_eq_div hv, Number.divisionEnds_inv hv⟩, ?eval⟩
  case eval =>
    rw [eval_inv, eval_one_div]
    cases h : t.eval b
    case error => rfl
    case ok w  => exact Number.inv_eq_div (wellFormed_eval hb t ht h)

end

open scoped Binary64.Rounded

-- Minus three quarters, and minus three thousandths as the value of a name.
theorem inverses_are_quotients_negative :
    let v := Number.rational ⟨-3, 4⟩
    let t := identifier "x"
    let b := Bindings.empty.insert "x" (.real ⟨-3000000000000⟩)
    v.WellFormed ∧ t.WellFormed ∧ b.WellFormed ∧ v.inv = .ok (.rational ⟨-4, 3⟩) ∧
      (Number.integer 1).div v = .ok (.rational ⟨-4, 3⟩) ∧
      (operation .div [t]).eval b = .ok (.real ⟨-333333333333333333⟩) ∧
      (operation .div [literal (.integer 1), t]).eval b = .ok (.real ⟨-333333333333333333⟩) := by
  intro v t b
  have hv : v.WellFormed := by decide
  have ht : t.WellFormed := .identifier (by decide)
  have hb : b.WellFormed := Bindings.wellFormed_empty.insert (v := .real _) trivial "x"
  have ⟨⟨hi, _⟩, he⟩ := inverses_are_quotients hv ht hb
  have hq : v.inv = .ok (.rational ⟨-4, 3⟩) := by decide +kernel
  have hx : (operation .div [t]).eval b = .ok (.real ⟨-333333333333333333⟩) := by decide +kernel
  exact ⟨hv, ht, hb, hq, hi ▸ hq, hx, he ▸ hx⟩

end Term

end TermReduction
