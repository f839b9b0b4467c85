import TermReduction.Operator.Application
import TermReduction.Proofs.Number.Failure

/-!
How operators fail. With as many operands as an operator takes it refuses an operand, divides a real by what
is nothing in fixed point, or negates a real that is too large. All other failures come from powers out of
the range of decimals, or from a logarithm that is zero at other numbers than one.
-/

namespace TermReduction.Operator

open Number (ExactPower StaysPositive)

-- The operand that an operator refuses, and what it requires of it.
inductive Refuses : Operator → List Number → Number → Relation → Nat → Prop
  | inverse {v} : v.IsZero → Refuses div [v] v .differentFrom 0
  | divisor {v w vs} :
    (Number.product (w :: vs)).IsZero →
      Refuses div (v :: w :: vs) (.product (w :: vs)) .differentFrom 0
  | radicand {v vs} : v.toFixed.units < 0 → Refuses sqrt (v :: vs) v .atLeast 0
  | exponential {v vs} : ¬v.IsPositive → Refuses exp (v :: vs) v .greaterThan 0
  | natural {v vs} : ¬v.StaysPositive → Refuses ln (v :: vs) v .greaterThan 0
  | base {v w vs} : ¬v.IsPositive → Refuses expt (v :: w :: vs) v .greaterThan 0
  | exponent {v w vs} : ¬w.IsPositive → Refuses expt (v :: w :: vs) w .greaterThan 0
  | lostBase {v w vs} :
    ¬ExactPower v w → ¬v.StaysPositive → Refuses expt (v :: w :: vs) v .greaterThan 0
  | antilogarithm {v w vs} : ¬v.StaysPositive → Refuses log (v :: w :: vs) v .greaterThan 0
  | logBase {v w vs} : ¬w.StaysPositive → Refuses log (v :: w :: vs) w .greaterThan 0
  | baseOne {v w vs} : w.toFixed = .one → Refuses log (v :: w :: vs) w .differentFrom 1

inductive Fails : Operator → List Number → Error → Prop
  | refused {op vs v rel n} : Refuses op vs v rel n → Fails op vs (.ofOperand v rel n)
  -- A real is divided by a number other than zero that is zero in fixed point.
  | lost {v w vs} :
    v.isReal → ¬(Number.product (w :: vs)).IsZero → (Number.product (w :: vs)).toFixed.units = 0 →
      Fails div (v :: w :: vs) .divisionByZero
  -- A real is negated whose leading digit is beyond the limit of negations.
  | overflow {x} : Fixed.negationLimit < (-x).toDecimal.leadingExponent → Fails sub [.real x] .overflow

-- The power to which an operator raises ten.
inductive RaisesTen [Binary64.Elementary] : Operator → List Number → Decimal → Prop
  | exp {v vs} : v.IsPositive → RaisesTen exp (v :: vs) (Decimal.log10E * v.toFixed.toDecimal)
  | expt {v w vs x} :
    v.IsPositive → w.IsPositive → ¬ExactPower v w → v.toFixed.toDecimal.log10Fixed = .ok x →
      RaisesTen expt (v :: w :: vs) (x.toDecimal * w.toFixed.toDecimal)

-- The decimals that come up when ten is raised to a power have exponents that decimals have.
def InRange [Binary64.Elementary] (op : Operator) (vs : List Number) : Prop :=
  ∀ y, op.RaisesTen vs y → y.PowerInRange

variable {op : Operator} {v w : Number} {vs : List Number} {e : Error}

theorem Fails.of_neg (h : v.neg = .error e) : sub.Fails [v] e := by
  cases v
  case integer  => cases h
  case rational => cases h
  case real x   =>
    rw [Number.neg, Fixed.negate] at h
    split at h <;> cases h
    case isTrue hx => exact .overflow hx

-- A zero can always be written.
theorem Fails.of_zero (hw : w.WellFormed) (hz : w.toRat = 0) (h : op.Refuses vs w .differentFrom 0) :
    op.Fails vs (.domain (.number w) .differentFrom 0) := by
  have hr : Error.ofOperand w .differentFrom 0 = .domain (.number w) .differentFrom 0 :=
    if_pos (((Number.isZero_iff hw).2 hz).writable hw)
  exact hr ▸ .refused h

theorem Fails.of_inv (hv : v.WellFormed) (h : v.inv = .error e) : div.Fails [v] e := by
  cases h ▸ Number.divisionEnds_inv hv
  case zero hz     => exact .of_zero hv hz (.inverse ((Number.isZero_iff hv).2 hz))
  case lost hr _ _ => cases hr

theorem Fails.of_div (hw : (Number.product (w :: vs)).WellFormed)
    (h : v.div (.product (w :: vs)) = .error e) : div.Fails (v :: w :: vs) e := by
  cases h ▸ Number.divisionEnds_div v hw
  case zero hz       => exact .of_zero hw hz (.divisor ((Number.isZero_iff hw).2 hz))
  case lost hr hz hl =>
    exact .lost hr (mt (Number.isZero_iff hw).1 hz) ((Number.units_toFixed_eq_zero_iff hw).2 hl)

-- The number of operands is right, so none is missing.
theorem fails_of_apply [Binary64.Elementary] (hz : Fixed.LogZeroOnlyAtOne) (hvs : ∀ v ∈ vs, v.WellFormed)
    (ha : op.arity.Accepts vs.length) (hr : op.InRange vs) (h : op.apply vs = .error e) :
    op.Fails vs e := by
  unfold apply at h
  split at h
  case h_1   => cases h
  case h_2   => cases h
  case h_3 v => exact .of_neg h
  case h_4   => cases h
  case h_5 v => exact .of_inv (List.forall_mem_singleton.1 hvs) h
  case h_6 v vs hne =>
    obtain ⟨_, hvs⟩ := List.forall_mem_cons.1 hvs
    cases vs
    case nil  => exact (hne rfl).elim
    case cons => exact .of_div (.product hvs) h
  case h_7 v vs =>
    obtain ⟨hn, rfl⟩ := Number.exp_error (fun hp => hr _ (.exp hp)) h
    exact .refused (.exponential hn)
  case h_8 v vs =>
    obtain ⟨hn, rfl⟩ := Number.ln_error hz (hvs v List.mem_cons_self) h
    exact .refused (.natural hn)
  case h_9 v vs =>
    obtain ⟨hn, rfl⟩ := Number.sqrt_error h
    exact .refused (.radicand hn)
  case h_10 v w vs =>
    have hv := hvs v List.mem_cons_self
    obtain ⟨hn, rfl⟩ | ⟨hn, rfl⟩ | ⟨hx, hn, rfl⟩ :=
      Number.pow_error hv (fun hp hq hx x hl => hr _ (.expt hp hq hx hl)) h
    · exact .refused (.base hn)
    · exact .refused (.exponent hn)
    · exact .refused (.lostBase hx hn)
  case h_11 v w vs =>
    obtain ⟨hv, hvs⟩ := List.forall_mem_cons.1 hvs
    obtain ⟨hn, rfl⟩ | ⟨hn, rfl⟩ | ⟨hn, rfl⟩ := Number.log_error hz hv (hvs w List.mem_cons_self) h
    · exact .refused (.antilogarithm hn)
    · exact .refused (.logBase hn)
    · exact .refused (.baseOne hn)
  case h_12 =>
    cases op <;> rcases vs with _ | ⟨v, _ | ⟨w, vs⟩⟩
    all_goals simp_all [arity, Arity.Accepts, Arity.atLeastOne, Arity.one, Arity.two]

end TermReduction.Operator
