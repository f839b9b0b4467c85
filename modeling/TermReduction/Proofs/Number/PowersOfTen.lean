import TermReduction.Proofs.Binary64.Integer
import TermReduction.Proofs.Number.Failure
import TermReduction.Proofs.Number.Power

/-!
Powers of ten have exact logarithms, and ten has exact powers with integers as exponents, if the logarithm
of binary numbers is right at one and ten and their power at zero. So the logarithm of a power of ten to the
base of another is a quotient of integers, rounded once, and a power of a power of ten is the power of ten
that it should be.
-/

namespace TermReduction

namespace Scaled

-- Divisions by ten stop at ten and not at one.
theorem shrink_tenTo (n : Nat) :
    shrink (tenTo n * (10 * Fixed.unitsPerOne)) = (10 * Fixed.unitsPerOne, n) := by
  induction n
  case zero      =>
    have h₀ : tenTo 0 * (10 * Fixed.unitsPerOne) = 10 * Fixed.unitsPerOne := Nat.one_mul _
    rw [h₀, shrink, if_pos (Nat.le_refl _)]
  case succ n ih =>
    have hp := tenTo_pos n
    have hn : ¬tenTo (n + 1) * (10 * Fixed.unitsPerOne) ≤ 10 * Fixed.unitsPerOne := by
      rw [tenTo_succ]
      simp only [Fixed.unitsPerOne]
      omega
    have hd : (tenTo (n + 1) * (10 * Fixed.unitsPerOne) + 5) / 10 = tenTo n * (10 * Fixed.unitsPerOne) := by
      rw [tenTo_succ]
      simp only [Fixed.unitsPerOne]
      omega
    rw [shrink, if_neg hn, hd, ih]

variable {x : Decimal} {k : Int}

-- A tenth of a power of ten above ten, in fixed point.
theorem units_tenth {n : Nat} (h : x.toRat = 10 ^ (n + 2 : Int)) :
    (Fixed.ofQuotient x (.ofInt 10)).units.toNat = tenTo n * (10 * Fixed.unitsPerOne) := by
  have hu : x.toRat / (Decimal.ofInt 10).toRat * Fixed.unitsPerOne =
      ((tenTo n * (10 * Fixed.unitsPerOne) : Nat) : Int) := by
    rw [h, Decimal.toRat_ofInt, ten_zpow_add]
    push_cast
    ring
  rw [Fixed.ofQuotient_eq x (by decide), Fixed.nearest, hu, roundAway_intCast, Int.toNat_natCast]

-- What is left of a power of ten: ten if it is above one, and one if it is not.
inductive IsTenTo : Int → Scaled → Prop
  | ten {m : Decimal} {k : Int} : 1 ≤ k → m.toRat = 10 → IsTenTo k ⟨m, k - 1⟩
  | one {m : Decimal} {k : Int} : k ≤ 0 → m.toRat = 1 → IsTenTo k ⟨m, k⟩

theorem isTenTo_ofDecimal (h : x.toRat = 10 ^ k) : IsTenTo k (ofDecimal x) := by
  have hg : .ofInt 10 < x ↔ 1 < k := by
    rw [Decimal.lt_iff, Decimal.toRat_ofInt, h, ← zpow_lt_zpow_iff_right₀ (by decide : (1 : Rat) < 10)]
    norm_num
  have hl : x < .ofInt 1 ↔ k < 0 := by
    rw [Decimal.lt_iff, Decimal.toRat_ofInt, h, ← zpow_lt_zpow_iff_right₀ (by decide : (1 : Rat) < 10)]
    norm_num
  unfold ofDecimal
  simp only [hg, hl]
  split
  case isTrue hk =>
    obtain ⟨n, rfl⟩ := Int.exists_add_of_le (show 2 ≤ k from hk)
    rw [Int.add_comm] at h
    have hm : (Fixed.toDecimal ⟨(10 * Fixed.unitsPerOne : Nat)⟩).toRat = 10 := by
      rw [Fixed.toRat_toDecimal]
      exact Fixed.toRat_ofInt 10
    have he : (2 + n - 1 : Int) = n + 1 := by omega
    have ht := IsTenTo.ten (by omega : (1 : Int) ≤ 2 + n) hm
    rw [he] at ht
    rw [units_tenth h, shrink_tenTo]
    exact ht
  case isFalse hk =>
    split
    case isTrue hk'  =>
      have hm : (x.shift (-k)).toRat = 1 := by
        rw [Decimal.toRat_shift, h, ← zpow_add₀ (by decide), Int.add_right_neg, zpow_zero]
      rw [Decimal.leadingExponent_eq h]
      exact .one hk'.le hm
    case isFalse hk' =>
      obtain rfl | rfl : k = 0 ∨ k = 1 := by omega
      · exact .one (Int.le_refl 0) (h.trans (zpow_zero 10))
      · exact .ten (Int.le_refl 1) (h.trans (zpow_one 10))

end Scaled

namespace Binary64

-- The logarithm is right at one and ten, and the power at zero.
structure ExactAtTen [Elementary] : Prop where
  log10_one  : (ofInt 1).log10 = ofInt 0
  log10_ten  : (ofInt 10).log10 = ofInt 1
  exp10_zero : (ofInt 0).exp10 = ofInt 1

variable [Elementary] {s : Scaled} {k : Int}

theorem ExactAtTen.log10_isTenTo (he : ExactAtTen) (hk : k.natAbs < 2 ^ 53) (h : s.IsTenTo k) :
    ofInt s.exponent + (ofDecimal s.mantissa).log10 = ofInt k := by
  cases h with
  | ten h₁ hm =>
    have hl : (ofInt (10 : Nat)).log10 = ofInt 1 := he.log10_ten
    have hb : (k - 1).natAbs < 2 ^ 53 := by omega
    rw [ofDecimal_eq_ofInt (by decide) hm, hl]
    refine add_eq_ofInt ?_
    rw [toRat_ofInt hb, toRat_ofInt (by decide), Int.cast_sub, sub_add_cancel]
  | one h₀ hm =>
    have hl : (ofInt (1 : Nat)).log10 = ofInt 0 := he.log10_one
    rw [ofDecimal_eq_ofInt Nat.one_pos (hm.trans Nat.cast_one.symm), hl]
    refine add_eq_ofInt ?_
    rw [toRat_ofInt hk, toRat_ofInt (by decide), Int.cast_zero, add_zero]

end Binary64

namespace Decimal

open Binary64 (ExactAtTen)

variable {x : Decimal} {k : Int}

theorem inRange_tenTo (hk : k.natAbs < 2 ^ 53) : (scaled 1 k).InRange := by
  have hd : digitCount (1 : Int).natAbs = 1 := by
    rw [digitCount]
    rfl
  simp only [InRange, leadingExponent, scaled, hd, leastExponent, greatestExponent, precision]
  omega

variable [Binary64.Elementary] (he : ExactAtTen)
include he

theorem log10_tenTo (hk : k.natAbs < 2 ^ 53) (h : x.toRat = 10 ^ k) : x.log10 = .ok (.ofInt k) := by
  rw [log10_eq_ok (coefficient_pos (h ▸ ten_zpow_pos k))]
  exact congrArg Except.ok (he.log10_isTenTo hk (Scaled.isTenTo_ofDecimal h))

theorem fractionalPower_zero (h : x.coefficient = 0) : fractionalPower x = scaled 1 0 := by
  have hz : Binary64.zero.exp10 = .ofInt 1 := he.exp10_zero
  have ho : (Binary64.ofInt 1).shortest = scaled 1 0 := by decide +kernel
  rw [fractionalPower, Binary64.ofDecimal_eq_zero h, hz, ho]

-- An integer has no fractional part, so nothing but the point is moved.
theorem antilog_intCast (hk : k.natAbs < 2 ^ 53) (h : x.toRat = k) : x.antilog = .ok (scaled 1 k) := by
  have hr := inRange_tenTo hk
  have hz : (x - ofInt k).coefficient = 0 := by
    rw [← toRat_eq_zero, toRat_sub, toRat_ofInt, h, sub_self]
  have hp : scaled 1 k * scaled 1 0 = scaled 1 k := congrArg (scaled 1) (Int.add_zero k)
  rw [antilog, antilogWith, truncate_eq h, powerOfTen_eq hr, Except.ok_bind, fractionalPower_zero he hz,
    product, hp, fit_of_inRange hr]

end Decimal

namespace Fixed

variable {x b : Fixed} {j k m n : Int}

theorem units_pos_of_tenTo (h : x.toRat = 10 ^ k) : 0 < x.units := by
  have hx : 0 < x.toDecimal.toRat := by
    rw [toRat_toDecimal, h]
    exact Decimal.ten_zpow_pos k
  exact Decimal.coefficient_pos hx

theorem inRange_mul_ofInt (h : (j * k).natAbs < 2 ^ 53) :
    ((ofInt j).toDecimal * (ofInt k).toDecimal).InRange := by
  have hc : ((ofInt j).toDecimal * (ofInt k).toDecimal).coefficient =
      j * k * (unitsPerOne * unitsPerOne : Nat) := by
    show j * unitsPerOne * (k * unitsPerOne) = _
    push_cast
    ring
  have hd : digitCount ((ofInt j).toDecimal * (ofInt k).toDecimal).coefficient.natAbs ≤ 46 := by
    rw [digitCount_le_iff (by decide), hc, Int.natAbs_mul, Int.natAbs_natCast]
    exact (Nat.mul_lt_mul_of_pos_right h (by decide)).trans (by decide)
  have he : ((ofInt j).toDecimal * (ofInt k).toDecimal).exponent = -30 := rfl
  simp only [Decimal.InRange, Decimal.leadingExponent, he, Decimal.leastExponent, Decimal.greatestExponent,
    Decimal.precision]
  omega

theorem round_tenTo (hk : k.natAbs < 2 ^ 53) : round (.scaled 1 k) = .ok (nearest (10 ^ k)) := by
  have hv : (Decimal.scaled 1 k).toRat = 10 ^ k := one_mul _
  have hl : ¬(Decimal.scaled 1 k).leadingExponent + places ≥ Decimal.precision := by
    rw [Decimal.leadingExponent_eq hv]
    simp only [places, Decimal.precision]
    omega
  rw [round, if_neg fun h => hl h.2, ofDecimal_eq, hv]

-- From the last place on, powers of ten are fixed-point numbers.
theorem toRat_nearest_tenTo (h : -(places : Int) ≤ j) : (nearest (10 ^ j)).toRat = 10 ^ j := by
  obtain ⟨n, hn⟩ := Int.le.dest h
  have hu : (10 : Rat) ^ j = toRat ⟨tenTo n⟩ := by
    rw [← hn, Int.add_comm, ten_zpow_add, toRat, unitsPerOne_eq, zpow_neg, zpow_natCast, div_eq_mul_inv]
    push_cast
    rfl
  rw [hu, nearest_toRat]

variable [Binary64.Elementary] (he : Binary64.ExactAtTen)
include he

theorem log_tenTo (hm : m.natAbs < 2 ^ 53) (hn : n.natAbs < 2 ^ 53) (h₀ : n ≠ 0) (hx : x.toRat = 10 ^ m)
    (hb : b.toRat = 10 ^ n) : x.toDecimal.log b.toDecimal = .ok (nearest (m / n)) := by
  rw [← toRat_toDecimal] at hx hb
  have hs := Binary64.toRat_shortest_ofInt hm
  have ht := Binary64.toRat_shortest_ofInt hn
  have hz : (Binary64.ofInt n).shortest.coefficient ≠ 0 := by
    rw [Ne, ← Decimal.toRat_eq_zero, ht]
    exact Int.cast_ne_zero.2 h₀
  rw [Decimal.log, Decimal.log10_tenTo he hm hx, Decimal.log10_tenTo he hn hb, Except.ok_bind, Except.ok_bind,
    quotient, if_neg hz, ofQuotient_eq _ hz, hs, ht]

-- The logarithm in fixed point is the integer that it is as a binary number.
theorem log10Fixed_tenTo (hj : j.natAbs < 2 ^ 53) (hx : x.toRat = 10 ^ j) :
    x.toDecimal.log10Fixed = .ok (ofInt j) := by
  rw [← toRat_toDecimal] at hx
  rw [Decimal.log10Fixed, Decimal.log10_tenTo he hj hx, Except.ok_bind, Except.pure_eq_ok, ofDecimal_eq,
    Binary64.toRat_shortest_ofInt hj, ← toRat_ofInt, nearest_toRat]

theorem power_tenTo (hj : j.natAbs < 2 ^ 53) (h : (j * k).natAbs < 2 ^ 53) (hx : x.toRat = 10 ^ j) :
    x.toDecimal.power (ofInt k).toDecimal = .ok (.scaled 1 (j * k)) := by
  have hv : ((ofInt j).toDecimal * (ofInt k).toDecimal).toRat = (j * k : Int) := by
    rw [Decimal.toRat_mul, toRat_toDecimal, toRat_toDecimal, toRat_ofInt, toRat_ofInt, Int.cast_mul]
  rw [Decimal.power, log10Fixed_tenTo he hj hx, Except.ok_bind, Decimal.product,
    Decimal.fit_of_inRange (inRange_mul_ofInt h), Except.ok_bind, Decimal.antilog_intCast he h hv]

end Fixed

namespace Number

open Fixed (nearest)

variable {v w : Number} {a b : Nat} {j k : Int}

theorem positiveFixed_eq (hv : v.IsPositive) (h : 0 < v.toFixed.units) : v.positiveFixed = .ok v.toFixed := by
  rw [positiveFixed, hv.ensurePositive_eq, Except.ok_bind, if_neg h.ne']

theorem toRat_toFixed_tenTo (a : Nat) : (integer (10 ^ a)).toFixed.toRat = 10 ^ (a : Int) := by
  rw [toFixed, Fixed.toRat_ofInt, zpow_natCast]
  push_cast
  rfl

theorem positiveFixed_tenTo (a : Nat) :
    (integer (10 ^ a)).positiveFixed = .ok (integer (10 ^ a)).toFixed :=
  positiveFixed_eq (Int.pow_pos (by decide)) (Fixed.units_pos_of_tenTo (toRat_toFixed_tenTo a))

section Powers

variable [Binary64.Elementary]

theorem pow_real {x : Fixed} (hx : 0 < x.units) (hw : w.IsPositive) :
    (real x).pow w = (do round (← Decimal.power x.toDecimal w.toFixed.toDecimal)) := by
  have hv : (real x).IsPositive := hx
  have hp : (real x).positiveFixed = .ok x := positiveFixed_eq hv hx
  unfold pow
  simp only [hv.ensurePositive_eq, hw.ensurePositive_eq, Except.ok_bind, hp]

variable (he : Binary64.ExactAtTen)
include he

theorem log_tenTo (ha : a < 2 ^ 53) (hb₁ : 1 ≤ b) (hb : b < 2 ^ 53) :
    (integer (10 ^ a)).log (integer (10 ^ b)) = .ok (ofFixed (nearest (a / b))) := by
  have h₁ : (integer (10 ^ b)).toFixed ≠ .one := by
    intro h
    have hp : (1 : Int) < 10 ^ b := one_lt_pow₀ (by decide) (by omega)
    exact hp.ne' (Fixed.ofInt_inj.1 h)
  have hl := Fixed.log_tenTo he (m := a) (n := b) ha hb (by omega) (toRat_toFixed_tenTo a)
    (toRat_toFixed_tenTo b)
  rw [log, positiveFixed_tenTo, positiveFixed_tenTo, Except.ok_bind, Except.ok_bind, if_neg h₁, hl]
  rfl

theorem pow_tenTo (hj : -15 ≤ j) (hk : 0 < k) (h : (j * k).natAbs < 2 ^ 53) :
    (real (nearest (10 ^ j))).pow (integer k) = .ok (ofFixed (nearest (10 ^ (j * k)))) := by
  have hx := Fixed.toRat_nearest_tenTo hj
  have hj : j.natAbs < 2 ^ 53 := by
    rw [Int.natAbs_mul] at h
    exact Nat.lt_of_le_of_lt (Nat.le_mul_of_pos_right _ (Int.natAbs_pos.2 hk.ne')) h
  have hw : (integer k).IsPositive := hk
  rw [pow_real (Fixed.units_pos_of_tenTo hx) hw, toFixed, Fixed.power_tenTo he hj h hx, Except.ok_bind, round,
    Fixed.round_tenTo h]
  rfl

end Powers

-- The logarithm and the powers of binary numbers are any two functions that are right at ten.
theorem powers_of_ten_exact [Binary64.Elementary] (he : Binary64.ExactAtTen) :
    (∀ k : Int, k.natAbs < 2 ^ 53 → ∀ x : Decimal, x.toRat = 10 ^ k →
      ∃ y, x.log10 = .ok y ∧ y.toRat = k) ∧
    (∀ k : Int, k.natAbs < 2 ^ 53 → ∀ x : Decimal, x.toRat = k →
      ∃ y, x.antilog = .ok y ∧ y.toRat = 10 ^ k) ∧
    (∀ a b : Nat, a < 2 ^ 53 → 1 ≤ b → b < 2 ^ 53 →
      ∃ v, (integer (10 ^ a)).log (integer (10 ^ b)) = .ok v ∧ FixedForm (nearest (a / b)).toRat v) ∧
    ∀ j k : Int, -15 ≤ j → 0 < k → (j * k).natAbs < 2 ^ 53 →
      ∃ v, (real (nearest (10 ^ j))).pow (integer k) = .ok v ∧
        FixedForm (nearest (10 ^ (j * k))).toRat v := by
  refine ⟨fun k hk x hx => ?log10, fun k hk x hx => ?antilog, fun a b ha hb₁ hb => ?log,
    fun j k hj hk h => ?pow⟩
  case log10   => exact ⟨_, Decimal.log10_tenTo he hk hx, Binary64.toRat_ofInt hk⟩
  case antilog => exact ⟨_, Decimal.antilog_intCast he hk hx, one_mul _⟩
  case log     => exact ⟨_, log_tenTo he ha hb₁ hb, fixedForm_ofFixed _⟩
  case pow     => exact ⟨_, pow_tenTo he hj hk h, fixedForm_ofFixed _⟩

open scoped Binary64.Rounded

-- Three halves as a logarithm, and a power below the last place, which is rounded to zero.
theorem powers_of_ten_exact_thousand :
    Binary64.ExactAtTen ∧
    (∃ y, (Decimal.scaled 1 (-7)).log10 = .ok y ∧ y.toRat = (-7 : Int)) ∧
    (∃ y, (Decimal.ofInt 40).antilog = .ok y ∧ y.toRat = 10 ^ (40 : Int)) ∧
    (integer 1000).log (integer 100) = .ok (real ⟨1500000000000000⟩) ∧
    (real ⟨1000000000000⟩).pow (integer 4) = .ok (real ⟨1000⟩) ∧
    (real ⟨1000000000000⟩).pow (integer 6) = .ok (integer 0) := by
  have he : Binary64.ExactAtTen := ⟨by decide +kernel, by decide +kernel, by decide +kernel⟩
  obtain ⟨hlog10, hantilog, hlog, hpow⟩ := powers_of_ten_exact he
  have hb : nearest (10 ^ (-3 : Int)) = ⟨1000000000000⟩ := by decide +kernel
  refine ⟨he, ?log10, ?antilog, ?log, ?pow, ?zero⟩
  case log10   => exact hlog10 (-7) (by decide) _ (one_mul _)
  case antilog => exact hantilog 40 (by decide) _ (Decimal.toRat_ofInt 40)
  case log     =>
    obtain ⟨v, hv, hf⟩ := hlog 3 2 (by decide) (by decide) (by decide)
    have he : ofFixed (nearest ((3 : Nat) / (2 : Nat))) = real ⟨1500000000000000⟩ := by decide +kernel
    rw [← he, ← hf.unique (fixedForm_ofFixed _)]
    exact hv
  case pow     =>
    obtain ⟨v, hv, hf⟩ := hpow (-3) 4 (by decide) (by decide) (by decide)
    have he : ofFixed (nearest (10 ^ (-3 * 4 : Int))) = real ⟨1000⟩ := by decide +kernel
    rw [← he, ← hf.unique (fixedForm_ofFixed _), ← hb]
    exact hv
  case zero    =>
    obtain ⟨v, hv, hf⟩ := hpow (-3) 6 (by decide) (by decide) (by decide)
    have he : ofFixed (nearest (10 ^ (-3 * 6 : Int))) = integer 0 := by decide +kernel
    rw [← he, ← hf.unique (fixedForm_ofFixed _), ← hb]
    exact hv

end Number

end TermReduction
