import TermReduction.Proofs.Logarithm
import TermReduction.Proofs.Number.Division

/-!
How functions of numbers fail. Behind the checks of their operands square roots cannot fail, nor can
logarithms if they are zero at one only, and powers fail only where a decimal leaves its range.
-/

namespace TermReduction

namespace Decimal

variable [Binary64.Elementary]

-- The result of raising ten to the power `y`, with no regard to its range.
def tenToPower (y : Decimal) : Decimal :=
  scaled 1 y.truncate * fractionalPower (y - ofInt y.truncate)

-- All decimals that come up when ten is raised to the power `y` have exponents that decimals have, and
-- the result has a number of digits that decimals have.
structure PowerInRange (y : Decimal) : Prop where
  exponent  : y.InRange
  magnitude : (scaled 1 y.truncate).InRange
  result    : y.tenToPower.InRange
  digits    : y.tenToPower.leadingExponent + Fixed.places < precision

variable {y : Decimal}

theorem PowerInRange.antilog_eq (h : y.PowerInRange) : y.antilog = .ok y.tenToPower := by
  rw [antilog, antilogWith, powerOfTen_eq h.magnitude, Except.ok_bind]
  exact fit_of_inRange h.result

theorem PowerInRange.round_antilog (h : y.PowerInRange) :
    ∃ v, (do Number.round (← y.antilog)) = .ok v := by
  have hn : ¬(y.tenToPower.coefficient ≠ 0 ∧ precision ≤ y.tenToPower.leadingExponent + Fixed.places) :=
    fun hc => absurd hc.2 (not_le.2 h.digits)
  rw [h.antilog_eq, Except.ok_bind, Number.round, Fixed.round, if_neg hn]
  exact ⟨_, rfl⟩

theorem exists_exp {x : Decimal} (h : (log10E * x).PowerInRange) :
    ∃ v, (do Number.round (← x.exp)) = .ok v := by
  rw [exp, product, fit_of_inRange h.exponent, Except.ok_bind]
  exact h.round_antilog

theorem exists_power {x k : Decimal} {l : Fixed} (hl : x.log10Fixed = .ok l)
    (h : (l.toDecimal * k).PowerInRange) : ∃ v, (do Number.round (← x.power k)) = .ok v := by
  rw [power, hl, Except.ok_bind, product, fit_of_inRange h.exponent, Except.ok_bind]
  exact h.round_antilog

end Decimal

namespace Fixed

variable {x b : Fixed}

theorem LogZeroOnlyAtOne.exists_ln [Binary64.Elementary] (hz : LogZeroOnlyAtOne) (hx : 0 < x.units) :
    ∃ y, x.toDecimal.ln = .ok y := by
  rw [Decimal.ln, log10_eq hx, Except.ok_bind, quotient, if_neg hz.coefficient_log10E_ne_zero]
  exact ⟨_, rfl⟩

-- The logarithm of the base can be divided by, since the base is not one.
theorem LogZeroOnlyAtOne.exists_log [Binary64.Elementary] (hz : LogZeroOnlyAtOne) (hx : 0 < x.units)
    (hb : 0 < b.units) (h : b ≠ one) : ∃ y, x.toDecimal.log b.toDecimal = .ok y := by
  have hq := hz.coefficient_ne_zero hb h (log10_eq hb)
  rw [Decimal.log, log10_eq hx, log10_eq hb, Except.ok_bind, Except.ok_bind, quotient, if_neg hq]
  exact ⟨_, rfl⟩

theorem exists_sqrt (h : ¬x.units < 0) : ∃ y, sqrt x.toDecimal = .ok y :=
  ⟨_, if_neg h⟩

end Fixed

namespace Number

variable {v w : Number} {e : Error} {x : Fixed}

-- A number is positive, and something is left of it in fixed point.
def StaysPositive (v : Number) : Prop :=
  v.IsPositive ∧ v.toFixed.units ≠ 0

theorem ensurePositive_ok (h : v.ensurePositive = .ok ()) : v.IsPositive := by
  by_contra hn
  rw [ensurePositive, if_neg hn] at h
  cases h

theorem ensurePositive_error (h : v.ensurePositive = .error e) :
    ¬v.IsPositive ∧ e = .ofOperand v .greaterThan 0 := by
  unfold ensurePositive at h
  split at h <;> cases h
  exact ⟨‹_›, rfl⟩

theorem units_toFixed_nonneg (hv : v.WellFormed) (hp : v.IsPositive) : 0 ≤ v.toFixed.units := by
  cases v
  case integer n  => exact Int.mul_nonneg (Int.le_of_lt hp) (Int.natCast_nonneg _)
  case rational q =>
    have hn : 0 < q.numerator * Fixed.unitsPerOne := Int.mul_pos hp (by decide)
    rw [toFixed, Fixed.ofRatio, roundHalfAway_of_pos hn hv.pos]
    exact Int.natCast_nonneg _
  case real x     => exact Int.le_of_lt hp

theorem positiveFixed_ok (hv : v.WellFormed) (h : v.positiveFixed = .ok x) :
    v.toFixed = x ∧ 0 < x.units := by
  obtain ⟨_, hp, h⟩ := Except.bind_eq_ok.1 h
  split at h <;> cases h
  case isFalse hz =>
    have := units_toFixed_nonneg hv (ensurePositive_ok hp)
    exact ⟨rfl, by omega⟩

theorem positiveFixed_error (h : v.positiveFixed = .error e) :
    ¬v.StaysPositive ∧ e = .ofOperand v .greaterThan 0 := by
  obtain h | ⟨_, hp, h⟩ := Except.bind_eq_error.1 h
  case inl =>
    obtain ⟨hp, he⟩ := ensurePositive_error h
    exact ⟨fun hs => hp hs.1, he⟩
  case inr =>
    split at h <;> cases h
    case isTrue hz => exact ⟨fun hs => hs.2 hz, rfl⟩

-- A radicand that is not negative is not refused again.
theorem sqrt_error (h : v.sqrt = .error e) : v.toFixed.units < 0 ∧ e = .ofOperand v .atLeast 0 := by
  unfold sqrt at h
  split at h
  case isTrue hn  =>
    cases h
    exact ⟨hn, rfl⟩
  case isFalse hn =>
    obtain ⟨y, hy⟩ := Fixed.exists_sqrt hn
    rw [hy] at h
    cases h

variable [Binary64.Elementary]

theorem exp_error (hr : v.IsPositive → (Decimal.log10E * v.toFixed.toDecimal).PowerInRange)
    (h : v.exp = .error e) : ¬v.IsPositive ∧ e = .ofOperand v .greaterThan 0 := by
  obtain h | ⟨_, hp, h⟩ := Except.bind_eq_error.1 h
  case inl => exact ensurePositive_error h
  case inr =>
    obtain ⟨u, hu⟩ := Decimal.exists_exp (hr (ensurePositive_ok hp))
    cases hu.symm.trans h

theorem ln_error (hz : Fixed.LogZeroOnlyAtOne) (hv : v.WellFormed) (h : v.ln = .error e) :
    ¬v.StaysPositive ∧ e = .ofOperand v .greaterThan 0 := by
  obtain h | ⟨x, hx, h⟩ := Except.bind_eq_error.1 h
  case inl => exact positiveFixed_error h
  case inr =>
    obtain ⟨y, hy⟩ := hz.exists_ln (positiveFixed_ok hv hx).2
    rw [hy] at h
    cases h

theorem log_error (hz : Fixed.LogZeroOnlyAtOne) (hv : v.WellFormed) (hw : w.WellFormed)
    (h : v.log w = .error e) :
    (¬v.StaysPositive ∧ e = .ofOperand v .greaterThan 0) ∨
      (¬w.StaysPositive ∧ e = .ofOperand w .greaterThan 0) ∨
      w.toFixed = .one ∧ e = .ofOperand w .differentFrom 1 := by
  obtain h | ⟨x, hx, h⟩ := Except.bind_eq_error.1 h
  case inl => exact .inl (positiveFixed_error h)
  case inr =>
    obtain h | ⟨b, hb, h⟩ := Except.bind_eq_error.1 h
    case inl => exact .inr (.inl (positiveFixed_error h))
    case inr =>
      obtain ⟨_, hx⟩ := positiveFixed_ok hv hx
      obtain ⟨hwb, hb⟩ := positiveFixed_ok hw hb
      split at h
      case isTrue h₁  =>
        cases h
        exact .inr (.inr ⟨hwb.trans h₁, rfl⟩)
      case isFalse h₁ =>
        obtain ⟨y, hy⟩ := hz.exists_log hx hb h₁
        rw [hy] at h
        cases h

-- A power that is computed exactly, of an integer or a fraction to an integer.
inductive ExactPower : Number → Number → Prop
  | integer {n k} : ExactPower (.integer n) (.integer k)
  | rational {q k} : ExactPower (.rational q) (.integer k)

instance : (v w : Number) → Decidable (ExactPower v w)
  | .integer _, .integer _ => isTrue .integer
  | .rational _, .integer _ => isTrue .rational
  | .real _, _ | _, .rational _ | _, .real _ => isFalse nofun

theorem pow_error (hv : v.WellFormed)
    (hr : v.IsPositive → w.IsPositive → ¬ExactPower v w → ∀ x, v.toFixed.toDecimal.log10Fixed = .ok x →
      (x.toDecimal * w.toFixed.toDecimal).PowerInRange)
    (h : v.pow w = .error e) :
    (¬v.IsPositive ∧ e = .ofOperand v .greaterThan 0) ∨
      (¬w.IsPositive ∧ e = .ofOperand w .greaterThan 0) ∨
      ¬ExactPower v w ∧ ¬v.StaysPositive ∧ e = .ofOperand v .greaterThan 0 := by
  obtain h | ⟨_, hp, h⟩ := Except.bind_eq_error.1 h
  case inl => exact .inl (ensurePositive_error h)
  case inr =>
    obtain h | ⟨_, hq, h⟩ := Except.bind_eq_error.1 h
    case inl => exact .inr (.inl (ensurePositive_error h))
    case inr =>
      split at h
      case h_1 => cases h
      case h_2 => cases h
      case h_3 hi hf =>
        have hn : ¬ExactPower v w := by
          rintro (_ | _)
          · exact hi _ _ rfl rfl
          · exact hf _ _ rfl rfl
        obtain h | ⟨x, hx, h⟩ := Except.bind_eq_error.1 h
        case inl => exact .inr (.inr ⟨hn, positiveFixed_error h⟩)
        case inr =>
          obtain ⟨rfl, hx⟩ := positiveFixed_ok hv hx
          have hl := Fixed.log10Fixed_eq hx
          have hy := hr (ensurePositive_ok hp) (ensurePositive_ok hq) hn _ hl
          obtain ⟨u, hu⟩ := Decimal.exists_power hl hy
          cases hu.symm.trans h

end Number

end TermReduction
