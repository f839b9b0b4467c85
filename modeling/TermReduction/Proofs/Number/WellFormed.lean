import TermReduction.Operator.Application
import TermReduction.Proofs.Except

/-!
Arithmetic on well-formed numbers gives well-formed numbers: every fraction that comes out of it is in
lowest terms.
-/

namespace TermReduction

namespace Fraction.Reduced

variable {q r : Fraction}

theorem ne_zero (h : q.Reduced) : q.denominator ≠ 0 :=
  Int.ne_of_gt h.pos

theorem add (hq : q.Reduced) (hr : r.Reduced) : (q + r).Reduced :=
  .reduce _ (Int.mul_ne_zero hq.ne_zero hr.ne_zero)

theorem sub (hq : q.Reduced) (hr : r.Reduced) : (q - r).Reduced :=
  hq.add hr.neg

theorem mul (hq : q.Reduced) (hr : r.Reduced) : (q * r).Reduced :=
  .reduce _ (Int.mul_ne_zero hq.ne_zero hr.ne_zero)

end Fraction.Reduced

namespace Number

variable {v w : Number} {vs : List Number}

theorem wellFormed_ofFraction {q : Fraction} (h : q.Reduced) : (ofFraction q).WellFormed := by
  unfold ofFraction
  split
  case isTrue  => trivial
  case isFalse => exact h

theorem wellFormed_ofFixed (x : Fixed) : (ofFixed x).WellFormed := by
  unfold ofFixed
  split <;> trivial

theorem wellFormed_of_exists (h : ∃ x, ofFixed x = w) : w.WellFormed := by
  obtain ⟨x, rfl⟩ := h
  exact wellFormed_ofFixed x

theorem ofFixed_ofInt (n : Int) : ofFixed (.ofInt n) = integer n := by
  rw [ofFixed, if_pos (Fixed.ofInt_isWhole n), Fixed.truncate_ofInt]

theorem exists_ofFixed_of_bind {x : Except Error Fixed}
    (h : (x >>= fun y => .ok (ofFixed y)) = .ok w) : ∃ y, ofFixed y = w := by
  obtain ⟨y, _, hy⟩ := Except.bind_eq_ok.1 h
  exact ⟨y, Except.ok.inj hy⟩

theorem neg_real_eq_ok {x : Fixed} : (real x).neg = .ok w ↔ ∃ y, x.negate = .ok y ∧ real y = w := by
  cases hx : x.negate <;> simp [neg, hx, Except.map]

theorem toFraction_ne_zero (hr : v.isReal = false) (hz : ¬v.IsZero) :
    v.toFraction.numerator ≠ 0 := by
  cases v
  case integer  => exact hz
  case rational => exact hz
  case real     => contradiction

theorem ensureNonZero_eq_ok : v.ensureNonZero = .ok () ↔ ¬v.IsZero := by
  by_cases h : v.IsZero <;> simp [ensureNonZero, h]

namespace WellFormed

theorem toFraction (h : v.WellFormed) : v.toFraction.Reduced := by
  cases v
  case integer n  => exact .ofInt n
  case rational q => exact h
  case real x     => exact .reduce x.units (by decide)

-- A sum, a difference and a product are in lowest terms because their fractions are.
theorem combine {onInt : Int → Int → Int} {onFraction : Fraction → Fraction → Fraction}
    {onDecimal : Decimal → Decimal → Decimal}
    (hf : ∀ q r : Fraction, q.Reduced → r.Reduced → (onFraction q r).Reduced)
    (hv : v.WellFormed) (hw : w.WellFormed) :
    (combine onInt onFraction onDecimal v w).WellFormed := by
  unfold Number.combine
  split
  case h_1 => trivial
  case h_2 =>
    split
    case isTrue  => exact wellFormed_ofFixed _
    case isFalse => exact wellFormed_ofFraction (hf _ _ hv.toFraction hw.toFraction)

theorem add (hv : v.WellFormed) (hw : w.WellFormed) : (v.add w).WellFormed :=
  hv.combine (fun _ _ => .add) hw

theorem sub (hv : v.WellFormed) (hw : w.WellFormed) : (v.sub w).WellFormed :=
  hv.combine (fun _ _ => .sub) hw

theorem mul (hv : v.WellFormed) (hw : w.WellFormed) : (v.mul w).WellFormed :=
  hv.combine (fun _ _ => .mul) hw

theorem sum : {vs : List Number} → (∀ v ∈ vs, v.WellFormed) → (sum vs).WellFormed
  | [], _          => trivial
  | [_], h         => List.forall_mem_singleton.1 h
  | _ :: _ :: _, h => have ⟨hv, hvs⟩ := List.forall_mem_cons.1 h; hv.add (sum hvs)

theorem product : {vs : List Number} → (∀ v ∈ vs, v.WellFormed) → (product vs).WellFormed
  | [], _          => trivial
  | [_], h         => List.forall_mem_singleton.1 h
  | _ :: _ :: _, h => have ⟨hv, hvs⟩ := List.forall_mem_cons.1 h; hv.mul (product hvs)

theorem neg (hv : v.WellFormed) (h : v.neg = .ok w) : w.WellFormed := by
  cases v
  case integer n =>
    cases h
    trivial
  case rational q =>
    cases h
    exact Fraction.Reduced.neg hv
  case real x =>
    obtain ⟨y, _, rfl⟩ := neg_real_eq_ok.1 h
    trivial

theorem inv (hv : v.WellFormed) (h : v.inv = .ok w) : w.WellFormed := by
  have ⟨_, hz, h⟩ := Except.bind_eq_ok.1 h
  split at h
  case isTrue     =>
    obtain ⟨x, rfl⟩ := exists_ofFixed_of_bind h
    exact wellFormed_ofFixed x
  case isFalse hr =>
    cases h
    have hn : v.toFraction.numerator ≠ 0 :=
      toFraction_ne_zero (eq_false_of_ne_true hr) (ensureNonZero_eq_ok.1 hz)
    exact wellFormed_ofFraction (hv.toFraction.inv hn)

theorem div {u : Number} (hv : v.WellFormed) (hw : w.WellFormed) (h : v.div w = .ok u) :
    u.WellFormed := by
  have ⟨_, hz, h⟩ := Except.bind_eq_ok.1 h
  split at h
  case isTrue     =>
    obtain ⟨x, rfl⟩ := exists_ofFixed_of_bind h
    exact wellFormed_ofFixed x
  case isFalse hr =>
    cases h
    have hr : w.isReal = false := by
      cases hw : w.isReal
      case false => rfl
      case true  => simp [hw] at hr
    have hn : w.toFraction.numerator ≠ 0 := toFraction_ne_zero hr (ensureNonZero_eq_ok.1 hz)
    exact wellFormed_ofFraction (hv.toFraction.mul (hw.toFraction.inv hn))

end WellFormed

-- The results of all other functions are roundings to fixed point.
theorem exists_ofFixed_of_sqrt (h : v.sqrt = .ok w) : ∃ x, ofFixed x = w := by
  unfold sqrt at h
  split at h
  case isTrue  => contradiction
  case isFalse => exact exists_ofFixed_of_bind h

variable [Binary64.Elementary]

theorem exists_ofFixed_of_exp (h : v.exp = .ok w) : ∃ x, ofFixed x = w := by
  have ⟨_, _, h⟩ := Except.bind_eq_ok.1 h
  have ⟨_, _, h⟩ := Except.bind_eq_ok.1 h
  exact exists_ofFixed_of_bind h

theorem exists_ofFixed_of_ln (h : v.ln = .ok w) : ∃ x, ofFixed x = w := by
  have ⟨_, _, h⟩ := Except.bind_eq_ok.1 h
  exact exists_ofFixed_of_bind h

theorem exists_ofFixed_of_log {base : Number} (h : v.log base = .ok w) : ∃ x, ofFixed x = w := by
  have ⟨_, _, h⟩ := Except.bind_eq_ok.1 h
  have ⟨_, _, h⟩ := Except.bind_eq_ok.1 h
  split at h
  case isTrue  => contradiction
  case isFalse => exact exists_ofFixed_of_bind h

theorem exists_ofFixed_of_pow {exponent : Number} (h : v.pow exponent = .ok w) :
    ∃ x, ofFixed x = w := by
  have ⟨_, _, h⟩ := Except.bind_eq_ok.1 h
  have ⟨_, _, h⟩ := Except.bind_eq_ok.1 h
  split at h
  case h_1 =>
    cases h
    exact ⟨_, ofFixed_ofInt _⟩
  case h_2 =>
    cases h
    exact ⟨_, rfl⟩
  case h_3 =>
    have ⟨_, _, h⟩ := Except.bind_eq_ok.1 h
    have ⟨_, _, h⟩ := Except.bind_eq_ok.1 h
    exact exists_ofFixed_of_bind h

end Number

namespace Operator

-- What an operator does with its operands if it succeeds.
inductive Applies : Operator → List Number → Number → Prop
  | sum {vs} : Applies add vs (.sum vs)
  | product {vs} : Applies mul vs (.product vs)
  | negative {v w} : v.neg = .ok w → Applies sub [v] w
  | difference {v w vs} : Applies sub (v :: w :: vs) (v.sub (.sum (w :: vs)))
  | inverse {v w} : v.inv = .ok w → Applies div [v] w
  | quotient {v w vs u} : v.div (.product (w :: vs)) = .ok u → Applies div (v :: w :: vs) u
  | rounded {op vs x} : op ∈ [exp, expt, ln, log, sqrt] → Applies op vs (.ofFixed x)

theorem Applies.of_exists {op : Operator} {vs : List Number} {w : Number}
    (ho : op ∈ [exp, expt, ln, log, sqrt]) (h : ∃ x, Number.ofFixed x = w) : op.Applies vs w := by
  obtain ⟨x, rfl⟩ := h
  exact .rounded ho

variable [Binary64.Elementary]

theorem applies_of_apply {op : Operator} {vs : List Number} {w : Number} (h : op.apply vs = .ok w) :
    op.Applies vs w := by
  unfold apply at h
  split at h
  case h_1 =>
    cases h
    exact .sum
  case h_2 =>
    cases h
    exact .product
  case h_3 => exact .negative h
  case h_4 v vs hvs =>
    cases h
    cases vs
    case nil  => exact (hvs rfl).elim
    case cons => exact .difference
  case h_5 => exact .inverse h
  case h_6 v vs hvs =>
    cases vs
    case nil  => exact (hvs rfl).elim
    case cons => exact .quotient h
  case h_7  => exact .of_exists (by decide) (Number.exists_ofFixed_of_exp h)
  case h_8  => exact .of_exists (by decide) (Number.exists_ofFixed_of_ln h)
  case h_9  => exact .of_exists (by decide) (Number.exists_ofFixed_of_sqrt h)
  case h_10 => exact .of_exists (by decide) (Number.exists_ofFixed_of_pow h)
  case h_11 => exact .of_exists (by decide) (Number.exists_ofFixed_of_log h)
  case h_12 => contradiction

theorem wellFormed_apply {op : Operator} {vs : List Number} {w : Number}
    (hvs : ∀ v ∈ vs, v.WellFormed) (h : op.apply vs = .ok w) : w.WellFormed := by
  cases applies_of_apply h
  case sum        => exact .sum hvs
  case product    => exact .product hvs
  case negative h => exact (List.forall_mem_singleton.1 hvs).neg h
  case difference =>
    obtain ⟨hv, hvs⟩ := List.forall_mem_cons.1 hvs
    exact hv.sub (.sum hvs)
  case inverse h  => exact (List.forall_mem_singleton.1 hvs).inv h
  case quotient h =>
    obtain ⟨hv, hvs⟩ := List.forall_mem_cons.1 hvs
    exact hv.div (.product hvs) h
  case rounded    => exact Number.wellFormed_ofFixed _

end Operator

end TermReduction
