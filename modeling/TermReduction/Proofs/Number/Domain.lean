import TermReduction.Proofs.Fixed.Nearest
import TermReduction.Proofs.Logarithm.Rounded
import TermReduction.Proofs.Operator.Failure

/-!
The domains of square roots, exponentials, logarithms and powers, in terms of the values of their
operands. What an operand may be refused for is looked for in a fixed order, and behind that there is a
value.
-/

namespace TermReduction.Number

variable {v w : Number}

-- The refusal of a number that is not positive, or of which nothing is left in fixed point.
def tooSmall (v : Number) : Error :=
  .domain (.number v) .greaterThan 0

-- What a number is refused for, if for anything, where a positive one is required.
def positiveFault? (v : Number) : Option Error :=
  if v.toRat ≤ 0 then some v.tooSmall else none

-- The same where something has to be left of it in fixed point as well.
def fixedFault? (v : Number) : Option Error :=
  v.positiveFault? <|> if Fixed.nearest v.toRat = .zero then some v.tooSmall else none

def logFault? (v base : Number) : Option Error :=
  v.fixedFault? <|> base.fixedFault? <|>
    if Fixed.nearest base.toRat = .one then some (.domain (.number base) .differentFrom 1) else none

-- Nothing is left of the base of a power, and it would be needed. Exact powers have no need of it.
def lostFault? (base exponent : Number) : Option Error :=
  if Fixed.nearest base.toRat = .zero ∧ ¬ExactPower base exponent then some base.tooSmall else none

def powFault? (base exponent : Number) : Option Error :=
  base.positiveFault? <|> exponent.positiveFault? <|> base.lostFault? exponent

-- Square roots look at the radicand in fixed point alone, where less than half a unit is nothing.
def sqrtFault? (v : Number) : Option Error :=
  if 2 * Fixed.unitsPerOne * v.toRat ≤ -1 then some (.domain (.number v) .atLeast 0) else none

theorem Writable.ofOperand_eq (h : v.Writable) (rel : Relation) (n : Nat) :
    Error.ofOperand v rel n = .domain (.number v) rel n :=
  if_pos h

theorem units_toFixed_eq_zero (hv : v.WellFormed) :
    v.toFixed.units = 0 ↔ Fixed.nearest v.toRat = .zero := by
  rw [← toFixed_eq hv]
  exact ⟨congrArg Fixed.mk, congrArg Fixed.units⟩

theorem units_toFixed_neg (hv : v.WellFormed) :
    v.toFixed.units < 0 ↔ 2 * Fixed.unitsPerOne * v.toRat ≤ -1 := by
  rw [toFixed_eq hv, Fixed.nearest, roundAway_neg_iff, mul_assoc, mul_comm v.toRat]

theorem ExactPower.lostFault?_eq (h : ExactPower v w) : v.lostFault? w = none :=
  if_neg fun hc => hc.2 h

theorem IsPositive.lostFault?_eq (hp : v.IsPositive) (hv : v.WellFormed) (h : ¬ExactPower v w) :
    v.lostFault? w = v.fixedFault? := by
  have hn : ¬v.toRat ≤ 0 := not_le.2 ((isPositive_iff hv).1 hp)
  simp [lostFault?, fixedFault?, positiveFault?, hn, h]

section Checks

variable (hv : v.WellFormed) (hvw : v.Writable)
include hv hvw

theorem ensurePositive_failsFor : v.ensurePositive.FailsFor v.positiveFault? := by
  have hp : ¬v.IsPositive ↔ v.toRat ≤ 0 := by rw [isPositive_iff hv, not_lt]
  rw [ensurePositive, hvw.ofOperand_eq, ← ite_not]
  exact .check hp fun _ => ⟨(), rfl⟩

theorem positiveFixed_failsFor : v.positiveFixed.FailsFor v.fixedFault? := by
  refine (ensurePositive_failsFor hv hvw).bind fun _ _ => ?_
  rw [hvw.ofOperand_eq]
  exact .check (units_toFixed_eq_zero hv) fun _ => ⟨_, rfl⟩

theorem sqrt_failsFor : v.sqrt.FailsFor v.sqrtFault? := by
  rw [Number.sqrt, hvw.ofOperand_eq]
  refine .check (units_toFixed_neg hv) fun hn => ?_
  obtain ⟨y, hy⟩ := Fixed.exists_sqrt hn
  exact hy ▸ ⟨_, rfl⟩

variable [Binary64.Elementary]

theorem exp_failsFor (hr : Operator.exp.InRange [v]) : v.exp.FailsFor v.positiveFault? :=
  (ensurePositive_failsFor hv hvw).bind_value fun _ hp =>
    Decimal.exists_exp (hr _ (.exp (ensurePositive_ok hp)))

theorem ln_failsFor (hz : Fixed.LogZeroOnlyAtOne) : v.ln.FailsFor v.fixedFault? := by
  refine (positiveFixed_failsFor hv hvw).bind_value fun x hx => ?_
  obtain ⟨y, hy⟩ := hz.exists_ln (positiveFixed_ok hv hx).2
  exact hy ▸ ⟨_, rfl⟩

variable (hw : w.WellFormed) (hww : w.Writable)
include hw hww

theorem log_failsFor (hz : Fixed.LogZeroOnlyAtOne) : (v.log w).FailsFor (v.logFault? w) := by
  refine (positiveFixed_failsFor hv hvw).bind fun x hx =>
    (positiveFixed_failsFor hw hww).bind fun b hb => ?_
  obtain ⟨_, hx⟩ := positiveFixed_ok hv hx
  obtain ⟨rfl, hb⟩ := positiveFixed_ok hw hb
  rw [hww.ofOperand_eq, toFixed_eq hw]
  refine .check Iff.rfl fun h => ?_
  obtain ⟨y, hy⟩ := hz.exists_log hx (toFixed_eq hw ▸ hb) h
  exact hy ▸ ⟨_, rfl⟩

theorem pow_failsFor (hr : Operator.expt.InRange [v, w]) : (v.pow w).FailsFor (v.powFault? w) := by
  refine (ensurePositive_failsFor hv hvw).bind fun _ hp =>
    (ensurePositive_failsFor hw hww).bind fun _ hq => ?_
  split
  case h_1 => exact ExactPower.integer.lostFault?_eq ▸ ⟨_, rfl⟩
  case h_2 => exact ExactPower.rational.lostFault?_eq ▸ ⟨_, rfl⟩
  case h_3 hi hf =>
    have hn : ¬ExactPower v w := by
      rintro (_ | _)
      · exact hi _ _ rfl rfl
      · exact hf _ _ rfl rfl
    have hp := ensurePositive_ok hp
    rw [hp.lostFault?_eq hv hn]
    refine (positiveFixed_failsFor hv hvw).bind_value fun x hx => ?_
    obtain ⟨rfl, hx⟩ := positiveFixed_ok hv hx
    have hl := Fixed.log10Fixed_eq hx
    exact Decimal.exists_power hl (hr _ (.expt hp (ensurePositive_ok hq) hn hl))

end Checks

-- Exponentials, logarithms and powers fail for these faults, in this order, and for nothing else, as long
-- as exponentials and powers stay in the range of decimals. The logarithm and the powers of binary numbers
-- are any two functions of which the one makes nothing but one zero.
theorem domain_faults [Binary64.Elementary] (hz : Fixed.LogZeroOnlyAtOne) (hv : v.WellFormed)
    (hvw : v.Writable) (hw : w.WellFormed) (hww : w.Writable) :
    (Operator.exp.InRange [v] → v.exp.FailsFor v.positiveFault?) ∧ v.ln.FailsFor v.fixedFault? ∧
      (v.log w).FailsFor (v.logFault? w) ∧
        (Operator.expt.InRange [v, w] → (v.pow w).FailsFor (v.powFault? w)) :=
  ⟨exp_failsFor hv hvw, ln_failsFor hv hvw hz, log_failsFor hv hvw hw hww hz, pow_failsFor hv hvw hw hww⟩

open scoped Binary64.Rounded

-- A tenth of a unit is positive, which is enough for an exponential and for an exponent, but there is
-- nothing left of it where a logarithm is taken.
theorem domain_faults_tenth :
    let v := rational ⟨1, 10000000000000000⟩
    let w := rational ⟨1, 3⟩
    Fixed.LogZeroOnlyAtOne ∧ v.WellFormed ∧ v.Writable ∧ w.WellFormed ∧ w.Writable ∧ (∃ u, v.exp = .ok u) ∧
      v.ln = .error v.tooSmall ∧ v.log w = .error v.tooSmall ∧ v.pow w = .error v.tooSmall ∧
        w.log v = .error v.tooSmall ∧ ∃ u, w.pow v = .ok u := by
  intro v w
  have hv : v.WellFormed := by decide +kernel
  have hvw : v.Writable := by decide +kernel
  have hw : w.WellFormed := by decide +kernel
  have hww : w.Writable := by decide +kernel
  have he : Operator.exp.InRange [v] := by
    rintro _ (_ | _)
    exact ⟨by decide +kernel, by decide +kernel, by decide +kernel, by decide +kernel⟩
  have hp : Operator.expt.InRange [v, w] := by
    rintro _ (_ | ⟨_, _, _, hl⟩)
    have hn : v.toFixed.toDecimal.log10Fixed =
        .error (.domain (.decimal v.toFixed.toDecimal) .greaterThan 0) := by decide +kernel
    cases hn.symm.trans hl
  have hq : Operator.expt.InRange [w, v] := by
    rintro _ (_ | ⟨_, _, _, hl⟩)
    have hn : w.toFixed.toDecimal.log10Fixed = .ok ⟨-477121254719663⟩ := by decide +kernel
    cases hn.symm.trans hl
    exact ⟨by decide +kernel, by decide +kernel, by decide +kernel, by decide +kernel⟩
  have hz := Fixed.logZeroOnlyAtOne_rounded
  have ⟨hexp, hln, hlog, hpow⟩ := domain_faults hz hv hvw hw hww
  have ⟨_, _, hlog', hpow'⟩ := domain_faults hz hw hww hv hvw
  exact ⟨hz, hv, hvw, hw, hww, (hexp he).ok_iff.2 (by decide +kernel), hln.error_iff.2 (by decide +kernel),
    hlog.error_iff.2 (by decide +kernel), (hpow hp).error_iff.2 (by decide +kernel),
    hlog'.error_iff.2 (by decide +kernel), (hpow' hq).ok_iff.2 (by decide +kernel)⟩

-- Only fractions are that close to zero, and they come out as zero.
theorem sqrt_of_small (hv : v.WellFormed) (hz : v.toRat ≠ 0) (h : 2 * Fixed.unitsPerOne * |v.toRat| < 1) :
    (∃ q, v = rational q) ∧ v.sqrt = .ok (integer 0) := by
  have hu : v.toFixed.units = 0 := (units_toFixed_eq_zero_iff hv).2 h
  have hf : v.toFixed = .zero := congrArg Fixed.mk hu
  refine ⟨?rational, ?value⟩
  case rational =>
    cases v
    case integer n  =>
      have hn : n = 0 := by simpa [toFixed, Fixed.ofInt, Fixed.unitsPerOne] using hu
      exact absurd (hn ▸ Int.cast_zero) hz
    case rational q => exact ⟨q, rfl⟩
    case real x     => cases isReal_eq_false_of_units_toFixed hv hz hu
  case value    =>
    rw [Number.sqrt, hf, if_neg (by decide)]
    decide +kernel

-- A square root refuses the negative numbers from half a unit on. Those above it have the root zero.
theorem sqrt_fails_from_half (hv : v.WellFormed) (hvw : v.Writable) :
    v.sqrt.FailsFor v.sqrtFault? ∧
      (v.toRat < 0 → -1 < 2 * Fixed.unitsPerOne * v.toRat →
        (∃ q, v = rational q) ∧ v.sqrt = .ok (integer 0)) := by
  refine ⟨sqrt_failsFor hv hvw, fun hn hh => sqrt_of_small hv hn.ne ?_⟩
  rw [abs_of_neg hn]
  linarith

-- Half a unit below zero is the first that is refused.
theorem sqrt_fails_from_half_exactly :
    let v := rational ⟨-1, 2000000000000000⟩
    v.WellFormed ∧ v.Writable ∧ 2 * Fixed.unitsPerOne * v.toRat = -1 ∧
      v.sqrt = .error (.domain (.number v) .atLeast 0) := by
  intro v
  have hv : v.WellFormed := by decide +kernel
  have hvw : v.Writable := by decide +kernel
  exact ⟨hv, hvw, by decide +kernel, (sqrt_fails_from_half hv hvw).1.error_iff.2 (by decide +kernel)⟩

-- A tenth of a unit below zero, a number that has no square root, is not refused.
theorem sqrt_of_negative_tenth :
    let v := rational ⟨-1, 10000000000000000⟩
    v.WellFormed ∧ v.Writable ∧ v.toRat < 0 ∧ v.sqrt ≠ .error (.domain (.number v) .atLeast 0) ∧
      v.sqrt = .ok (integer 0) := by
  decide +kernel

end TermReduction.Number
