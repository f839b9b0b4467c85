import TermReduction.Proofs.Number.Rounded

/-!
Powers of integers and fractions to positive integers. They are the powers of the values, rounded once, and
in fixed point they are the products of that many factors.
-/

namespace TermReduction.Number

open Fixed (nearest)

variable {v : Number} {q : Rat} {n k : Int}

-- The product of `k` factors, multiplied one after the other from the left. A single one stays as it is.
def mulChain (v : Number) : Nat → Number
  | 0     => integer 1
  | 1     => v
  | k + 2 => (mulChain v (k + 1)).mul v

theorem cast_power (hn : 0 ≤ n) (k : Nat) : ((power n.toNat k : Nat) : Int) = n ^ k := by
  rw [power_eq, Nat.pow_eq, Nat.cast_pow, Int.toNat_of_nonneg hn]

theorem IsPositive.ensurePositive_eq (h : v.IsPositive) : v.ensurePositive = .ok () :=
  if_pos h

theorem toFixed_ofFixed (x : Fixed) : (ofFixed x).toFixed = x := by
  rw [toFixed_eq (wellFormed_ofFixed x), toRat_ofFixed, Fixed.nearest_toRat]

theorem Denotes.mulChain (hv : v.Denotes q) : (k : Nat) → (v.mulChain k).Denotes (q ^ k)
  | 0     => by
    rw [pow_zero, ← Int.cast_one]
    exact .integer 1
  | 1     => by rwa [pow_one]
  | k + 2 => by
    rw [pow_succ]
    exact (hv.mulChain (k + 1)).mul hv

section Positive

variable [Binary64.Elementary] (hk : 0 < k)
include hk

theorem pow_integer (hn : 0 < n) : (integer n).pow (integer k) = .ok (integer (n ^ k.toNat)) := by
  have hp : (integer n).IsPositive := hn
  have hq : (integer k).IsPositive := hk
  rw [pow, hp.ensurePositive_eq, hq.ensurePositive_eq, ← cast_power hn.le]
  rfl

-- Numerator and denominator are raised to the power before anything is rounded.
theorem pow_rational {f : Fraction} (hf : f.Reduced) (hn : 0 < f.numerator) :
    (rational f).pow (integer k) = .ok (ofFixed (nearest (f.toRat ^ k.toNat))) := by
  have hp : (rational f).IsPositive := hn
  have hq : (integer k).IsPositive := hk
  have hd : f.denominator ^ k.toNat ≠ 0 := pow_ne_zero _ hf.ne_zero
  have hr : (f.toRat ^ k.toNat : Rat) = (f.numerator ^ k.toNat : Int) / (f.denominator ^ k.toNat : Int) := by
    rw [Fraction.toRat, div_pow]
    push_cast
    rfl
  rw [pow, hp.ensurePositive_eq, hq.ensurePositive_eq, hr, ← Fixed.ofRatio_eq _ hd, ← cast_power hn.le,
    ← cast_power hf.pos.le]
  rfl

-- For integers the rounding has nothing to do.
theorem pow_of_denotes (hv : v.Denotes q) (hq : 0 < q) :
    v.pow (integer k) = .ok (ofFixed (nearest (q ^ k.toNat))) := by
  obtain ⟨hw, hr, rfl⟩ := hv
  have hp : v.IsPositive := (isPositive_iff hw).2 hq
  cases v
  case integer n  =>
    rw [pow_integer hk hp, toRat, ← Int.cast_pow, ← Fixed.toRat_ofInt, Fixed.nearest_toRat, ofFixed_ofInt]
  case rational f => exact pow_rational hk hw hp
  case real       => contradiction

-- A power of an integer or a fraction is that of its value, rounded once to fixed point and in the form of
-- what comes out, so that of an integer is exact. In fixed point it is the product of `k` factors.
theorem pow_rounded_once (hv : v.Denotes q) (hq : 0 < q) :
    ∃ u, v.pow (integer k) = .ok u ∧ (∀ n, v = integer n → u = integer (n ^ k.toNat)) ∧
      FixedForm (nearest (q ^ k.toNat)).toRat u ∧ u.toFixed = (v.mulChain k.toNat).toFixed := by
  have he := pow_of_denotes hk hv hq
  refine ⟨_, he, ?integer, fixedForm_ofFixed _, ?product⟩
  case integer =>
    rintro n rfl
    have hn : 0 < n := (isPositive_iff hv.wellFormed).2 (hv.toRat_eq ▸ hq)
    exact Except.ok.inj (he.symm.trans (pow_integer hk hn))
  case product =>
    have hc := hv.mulChain k.toNat
    rw [toFixed_ofFixed, toFixed_eq hc.wellFormed, hc.toRat_eq]

end Positive

open scoped Binary64.Rounded

-- The sixteenth power of a half has sixteen decimal places, the last of which is a five.
theorem pow_rounded_once_half :
    let v := rational ⟨1, 2⟩
    let u := real ⟨15258789063⟩
    v.Denotes (1 / 2) ∧ v.pow (integer 16) = .ok u ∧ v.mulChain 16 = rational ⟨1, 65536⟩ ∧
      (v.mulChain 16).toFixed = u.toFixed ∧ (integer 3).pow (integer 40) = .ok (integer (3 ^ 40)) := by
  intro v u
  have hv : v.Denotes (1 / 2) := ⟨by decide, rfl, by decide +kernel⟩
  obtain ⟨w, hw, -, -, hc⟩ := pow_rounded_once (k := 16) (by decide) hv (by norm_num)
  have hu : v.pow (integer 16) = .ok u := by decide +kernel
  obtain ⟨z, hz, hn, -⟩ := pow_rounded_once (k := 40) (by decide) (.integer 3) (by norm_num)
  cases hu.symm.trans hw
  exact ⟨hv, hu, by decide +kernel, hc.symm, hn 3 rfl ▸ hz⟩

end TermReduction.Number
