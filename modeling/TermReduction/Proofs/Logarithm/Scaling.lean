import Mathlib.Algebra.Order.Archimedean.Basic
import TermReduction.Proofs.Fixed.Closest
import TermReduction.Proofs.Logarithm

/-!
The loops that split off the order of magnitude end, and end in one way. Multiplying by ten loses nothing.
Dividing by ten rounds in each pass, but the next pass divides what was lost by ten as well, so that the
error stays within five ninths of the last place however many passes there are.
-/

namespace TermReduction.Scaled

variable {guard : Decimal → Prop} {pass : Scaled → Scaled} {s : Scaled} {x : Decimal}

namespace Repeats

theorem stopped {s t : Scaled} : Repeats guard pass s t → ¬guard t.mantissa
  | stop h   => h
  | next _ r => r.stopped

theorem unique {s t₁ t₂ : Scaled} : Repeats guard pass s t₁ → Repeats guard pass s t₂ → t₁ = t₂
  | stop _,    stop _    => rfl
  | stop h,    next g _  => absurd g h
  | next g _,  stop h    => absurd g h
  | next _ r₁, next _ r₂ => r₁.unique r₂

-- What each pass keeps, the loop keeps.
theorem keeps {P : Scaled → Prop} (hp : ∀ s, guard s.mantissa → P s → P (pass s)) {s t : Scaled} :
    Repeats guard pass s t → P s → P t
  | stop _,   h => h
  | next g r, h => r.keeps hp (hp _ g h)

end Repeats

-- How far the mantissa may be from the number whose order of magnitude is split off.
def tolerance : Rat :=
  5 / 9 / 10 ^ 15

-- What holds before and after each division by ten.
structure Lowered (x : Decimal) (s : Scaled) : Prop where
  low   : 1 ≤ s.mantissa.toRat
  close : |s.mantissa.toRat - x.toRat / 10 ^ s.exponent| ≤ tolerance

-- What holds before and after each multiplication by ten.
structure Raised (x : Decimal) (s : Scaled) : Prop where
  high  : s.mantissa.toRat < 10
  exact : s.mantissa.toRat * 10 ^ s.exponent = x.toRat

theorem toRat_lower (s : Scaled) : s.lower.mantissa.toRat = (Fixed.nearest (s.mantissa.toRat / 10)).toRat := by
  rw [lower, Fixed.toRat_toDecimal, Fixed.ofQuotient_eq _ (by decide), Decimal.toRat_ofInt]
  rfl

theorem toRat_raise (s : Scaled) : s.raise.mantissa.toRat = s.mantissa.toRat * 10 := by
  rw [raise, Decimal.toRat_mul, Decimal.toRat_ofInt]
  rfl

theorem lowered_start (h : 1 ≤ x.toRat) : Lowered x ⟨x, 0⟩ where
  low   := h
  close := by
    rw [zpow_zero, div_one, sub_self, abs_zero, tolerance]
    positivity

-- Half of the last place is added to a tenth of what was there.
theorem Lowered.lower (hs : Lowered x s) (h : 10 < s.mantissa.toRat) : Lowered x s.lower where
  low := by
    have h₁ : (Fixed.nearest 1).toRat = 1 := by
      have := Fixed.nearest_toRat (.ofInt 1)
      rw [Fixed.toRat_ofInt, Int.cast_one] at this
      rw [this, Fixed.toRat_ofInt, Int.cast_one]
    have hd : 1 ≤ s.mantissa.toRat / 10 := by linarith
    rw [toRat_lower]
    exact h₁.ge.trans (Fixed.nearest_mono hd)
  close := by
    have hq : x.toRat / 10 ^ (s.exponent + 1) = x.toRat / 10 ^ s.exponent / 10 := by
      rw [zpow_add_one₀ (by decide), div_div]
    have h₁ := Fixed.abs_nearest_sub_le_half (s.mantissa.toRat / 10)
    have h₂ : |s.mantissa.toRat / 10 - x.toRat / 10 ^ s.exponent / 10| ≤ tolerance / 10 := by
      rw [← sub_div, abs_div, abs_of_pos (by decide : (0 : Rat) < 10)]
      exact div_le_div_of_nonneg_right hs.close (by decide)
    calc |s.lower.mantissa.toRat - x.toRat / 10 ^ (s.exponent + 1)|
      _ ≤ |s.lower.mantissa.toRat - s.mantissa.toRat / 10|
            + |s.mantissa.toRat / 10 - x.toRat / 10 ^ s.exponent / 10| := by
          rw [hq]
          exact abs_sub_le _ _ _
      _ ≤ 1 / 2 / 10 ^ 15 + tolerance / 10                             := by
          rw [toRat_lower]
          exact add_le_add h₁ h₂
      _ = tolerance                                                    := by norm_num [tolerance]

theorem raised_start (h : x.toRat < 1) : Raised x ⟨x, 0⟩ where
  high  := h.trans (by decide)
  exact := by rw [zpow_zero, mul_one]

theorem Raised.raise (hs : Raised x s) (h : s.mantissa.toRat < 1) : Raised x s.raise where
  high := by
    rw [toRat_raise]
    linarith
  exact := by
    show s.raise.mantissa.toRat * 10 ^ (s.exponent - 1) = x.toRat
    rw [toRat_raise, zpow_sub_one₀ (by decide), ← hs.exact]
    field_simp

-- The range of decimals has room for another digit, so that the product is the same where it is checked.
theorem product_eq_raise (hm : s.mantissa.InRange) (h₀ : 0 < s.mantissa.toRat) (h : s.mantissa.toRat < 1) :
    s.mantissa.product (.ofInt 10) = .ok s.raise.mantissa ∧ s.raise.mantissa.InRange := by
  have hp : 0 < s.raise.mantissa.toRat := by
    rw [toRat_raise]
    linarith
  have he : s.raise.mantissa.exponent = s.mantissa.exponent := Int.add_zero _
  have hl : ¬1 ≤ s.raise.mantissa.leadingExponent := by
    rw [Decimal.le_leadingExponent_iff (Decimal.coefficient_pos hp).ne', abs_of_pos hp, toRat_raise, zpow_one]
    linarith
  have hr : s.raise.mantissa.InRange := by
    refine ⟨he ▸ hm.1, ?_⟩
    simp only [Decimal.greatestExponent]
    omega
  exact ⟨Decimal.fit_of_inRange hr, hr⟩

-- Multiplying by ten stops at the power of ten of the leading digit.
theorem Raised.exponent_eq (hs : Raised x s) (h : 1 ≤ s.mantissa.toRat) : s.exponent = x.leadingExponent := by
  have hp := Decimal.ten_zpow_pos s.exponent
  have h₁ : (10 : Rat) ^ s.exponent ≤ x.toRat := by
    rw [← hs.exact]
    exact le_mul_of_one_le_left hp.le h
  have h₂ : x.toRat < 10 ^ (s.exponent + 1) := by
    rw [← hs.exact, zpow_add_one₀ (by decide), mul_comm]
    exact mul_lt_mul_of_pos_left hs.high hp
  have hc := Decimal.coefficient_pos (hp.trans_le h₁)
  have h₃ := h₁.trans_lt (Decimal.toRat_lt hc.le)
  have h₄ := (Decimal.le_toRat hc).trans_lt h₂
  rw [zpow_lt_zpow_iff_right₀ (by decide)] at h₃ h₄
  omega

theorem ten_lt_iff : .ofInt 10 < x ↔ 10 < x.toRat := by
  rw [Decimal.lt_iff, Decimal.toRat_ofInt]
  rfl

theorem lt_one_iff : x < .ofInt 1 ↔ x.toRat < 1 := by
  rw [Decimal.lt_iff, Decimal.toRat_ofInt, Int.cast_one]

theorem roundAway_tenth (n : Nat) : roundAway (n / 10) = ((n + 5) / 10 : Nat) := by
  have hq : (n / 10 + 1 / 2 : Rat) = (n + 5 : Nat) / (10 : Nat) := by
    push_cast
    ring
  rw [roundAway_of_nonneg (by positivity), hq, Rat.floor_natCast_div_natCast]
  rfl

theorem lower_toDecimal (u : Nat) (c : Int) :
    lower ⟨Fixed.toDecimal ⟨u⟩, c⟩ = ⟨Fixed.toDecimal ⟨((u + 5) / 10 : Nat)⟩, c + 1⟩ := by
  have hu : (Fixed.toDecimal ⟨u⟩).toRat / (10 : Int) * Fixed.unitsPerOne = u / 10 := by
    have := Fixed.unitsPerOne_pos.ne'
    rw [Fixed.toRat_toDecimal, Fixed.toRat]
    push_cast
    field_simp
  rw [lower, Fixed.ofQuotient_eq _ (by decide), Decimal.toRat_ofInt, Fixed.nearest, hu, roundAway_tenth]

theorem ten_lt_toDecimal {u : Nat} : .ofInt 10 < Fixed.toDecimal ⟨u⟩ ↔ 10 * Fixed.unitsPerOne < u := by
  rw [Fixed.ofInt_lt_toDecimal]
  show 10 * (Fixed.unitsPerOne : Int) < (u : Int) ↔ _
  omega

theorem repeats_shrink (u : Nat) (c : Int) : Repeats (.ofInt 10 < ·) lower ⟨Fixed.toDecimal ⟨u⟩, c⟩
    ⟨Fixed.toDecimal ⟨(shrink u).1⟩, c + (shrink u).2⟩ := by
  fun_induction shrink u generalizing c
  case case1 u h =>
    rw [Int.natCast_zero, Int.add_zero]
    exact .stop (mt ten_lt_toDecimal.1 (not_lt.2 h))
  case case2 u h v k hs ih =>
    have hr := ih (c + 1)
    rw [hs, ← lower_toDecimal] at hr
    refine .next (ten_lt_toDecimal.2 (not_le.1 h)) ?_
    push_cast
    rwa [Int.add_comm (k : Int), ← Int.add_assoc]

theorem repeats_lower (h : .ofInt 10 < x) : Repeats (.ofInt 10 < ·) lower ⟨x, 0⟩ (ofDecimal x) := by
  have hx := ten_lt_iff.1 h
  have hl := ((lowered_start (by linarith)).lower hx).low
  have hu : 0 ≤ (Fixed.ofQuotient x (.ofInt 10)).units := (Decimal.coefficient_pos (one_pos.trans_le hl)).le
  have hr := repeats_shrink (Fixed.ofQuotient x (.ofInt 10)).units.toNat 1
  rw [Int.toNat_of_nonneg hu, Int.add_comm] at hr
  rw [ofDecimal, if_pos h]
  exact .next h hr

theorem exists_raise (n : Nat) (h : 1 ≤ s.mantissa.toRat * 10 ^ n) :
    ∃ t, Repeats (· < .ofInt 1) raise s t := by
  induction n generalizing s
  case zero      =>
    rw [pow_zero, mul_one] at h
    exact ⟨s, .stop fun hs => absurd (lt_one_iff.1 hs) (not_lt.2 h)⟩
  case succ n ih =>
    by_cases hs : s.mantissa < .ofInt 1
    case neg => exact ⟨s, .stop hs⟩
    case pos =>
      have hn : 1 ≤ s.raise.mantissa.toRat * 10 ^ n := by
        rwa [toRat_raise, mul_assoc, ← pow_succ']
      have ⟨t, r⟩ := ih hn
      exact ⟨t, .next hs r⟩

theorem exists_reduces (h : 0 < x.toRat) : ∃ s, Reduces x s := by
  by_cases hg : .ofInt 10 < x
  case pos => exact ⟨_, .lower hg (repeats_lower hg)⟩
  case neg =>
    by_cases hl : x < .ofInt 1
    case neg => exact ⟨_, .keep hg hl⟩
    case pos =>
      have ⟨n, hn⟩ := pow_unbounded_of_one_lt x.toRat⁻¹ (by decide : (1 : Rat) < 10)
      have h₁ : 1 ≤ x.toRat * 10 ^ n := by
        rw [mul_comm, ← inv_le_iff_one_le_mul₀ h]
        exact hn.le
      have ⟨s, r⟩ := exists_raise (s := ⟨x, 0⟩) n h₁
      exact ⟨s, .raise hl r⟩

namespace Reduces

variable {t : Scaled}

theorem unique (hs : Reduces x s) (ht : Reduces x t) : s = t := by
  have hx (h₁ : .ofInt 10 < x) (h₂ : x < .ofInt 1) : s = t := by
    rw [ten_lt_iff] at h₁
    rw [lt_one_iff] at h₂
    linarith
  cases hs <;> cases ht
  case lower.lower r₁ _ r₂     => exact r₁.unique r₂
  case lower.raise h₁ _ h₂ _   => exact hx h₁ h₂
  case lower.keep h₁ _ h₂ _    => exact absurd h₁ h₂
  case raise.lower h₁ _ h₂ _   => exact hx h₂ h₁
  case raise.raise r₁ _ r₂     => exact r₁.unique r₂
  case raise.keep h₁ _ _ h₂    => exact absurd h₁ h₂
  case keep.lower h₁ _ h₂ _    => exact absurd h₂ h₁
  case keep.raise _ h₁ h₂ _    => exact absurd h₂ h₁
  case keep.keep               => rfl

-- Dividing by ten takes at least one pass.
theorem lowered (hs : Reduces x s) (h : 10 < x.toRat) :
    1 ≤ s.exponent ∧ Lowered x s ∧ s.mantissa.toRat ≤ 10 := by
  cases hs
  case raise h₁ _ => linarith [lt_one_iff.1 h₁]
  case keep h₁ _  => exact absurd (ten_lt_iff.2 h) h₁
  case lower h₁ r =>
    have hp (s : Scaled) (hg : .ofInt 10 < s.mantissa) (hs : 1 ≤ s.exponent ∧ Lowered x s) :
        1 ≤ s.lower.exponent ∧ Lowered x s.lower :=
      ⟨Int.le_add_one hs.1, hs.2.lower (ten_lt_iff.1 hg)⟩
    have he := not_lt.1 (mt ten_lt_iff.2 r.stopped)
    cases r with
    | stop hn   => exact absurd h₁ hn
    | next _ r' =>
      have hk := r'.keeps hp ⟨Int.le_refl 1, (lowered_start (by linarith)).lower h⟩
      exact ⟨hk.1, hk.2, he⟩

theorem raised (hs : Reduces x s) (h : x.toRat < 1) : Raised x s ∧ 1 ≤ s.mantissa.toRat := by
  cases hs
  case lower h₁ _ => linarith [ten_lt_iff.1 h₁]
  case keep _ h₁  => exact absurd (lt_one_iff.2 h) h₁
  case raise _ r  =>
    have hk := r.keeps (fun s hg hs => hs.raise (lt_one_iff.1 hg)) (raised_start h)
    exact ⟨hk, not_lt.1 (mt lt_one_iff.2 r.stopped)⟩

theorem kept (hs : Reduces x s) (h₁ : 1 ≤ x.toRat) (h₂ : x.toRat ≤ 10) : s = ⟨x, 0⟩ := by
  cases hs
  case lower h _ => linarith [ten_lt_iff.1 h]
  case raise h _ => linarith [lt_one_iff.1 h]
  case keep      => rfl

theorem mantissa_mem (hs : Reduces x s) : 1 ≤ s.mantissa.toRat ∧ s.mantissa.toRat ≤ 10 := by
  by_cases hg : 10 < x.toRat
  case pos =>
    have ⟨_, hl, he⟩ := hs.lowered hg
    exact ⟨hl.low, he⟩
  case neg =>
    by_cases hl : x.toRat < 1
    case pos =>
      have ⟨hr, he⟩ := hs.raised hl
      exact ⟨he, hr.high.le⟩
    case neg =>
      cases hs.kept (not_lt.1 hl) (not_lt.1 hg)
      exact ⟨not_lt.1 hl, not_lt.1 hg⟩

-- What the loops leave is what is computed at once, up to how the mantissa is written.
theorem agrees (hs : Reduces x s) :
    s.exponent = (ofDecimal x).exponent ∧ s.mantissa.toRat = (ofDecimal x).mantissa.toRat := by
  by_cases hg : .ofInt 10 < x
  case pos =>
    cases hs.unique (.lower hg (repeats_lower hg))
    exact ⟨rfl, rfl⟩
  case neg =>
    by_cases hl : x < .ofInt 1
    case pos =>
      have ⟨hr, he⟩ := hs.raised (lt_one_iff.1 hl)
      have hx := hr.exponent_eq he
      rw [ofDecimal, if_neg hg, if_pos hl, Decimal.toRat_shift, ← hx, ← hr.exact, mul_assoc,
        ← zpow_add₀ (by decide), Int.add_right_neg, zpow_zero, mul_one]
      exact ⟨rfl, rfl⟩
    case neg =>
      cases hs.unique (.keep hg hl)
      rw [ofDecimal, if_neg hg, if_neg hl]
      exact ⟨rfl, rfl⟩

theorem log10_eq [Binary64.Elementary] (hs : Reduces x s) (h : 0 < x.toRat) :
    x.log10 = .ok (.ofInt s.exponent + (Binary64.ofDecimal s.mantissa).log10) := by
  have ⟨he, hm⟩ := hs.agrees
  rw [Decimal.log10_eq_ok (Decimal.coefficient_pos h), he, Binary64.ofDecimal_congr hm]

end Reduces

end TermReduction.Scaled

namespace TermReduction.Decimal

open Scaled

theorem log10_reduces [Binary64.Elementary] (x : Decimal) :
    (0 < x.toRat → (∃! s, Reduces x s) ∧ ∀ s, Reduces x s →
      1 ≤ s.mantissa.toRat ∧ s.mantissa.toRat ≤ 10 ∧
      (x.toRat < 1 → s.mantissa.toRat * 10 ^ s.exponent = x.toRat) ∧
      (10 < x.toRat → 1 ≤ s.exponent ∧
        |s.mantissa.toRat - x.toRat / 10 ^ s.exponent| ≤ 5 / 9 / 10 ^ 15) ∧
      (1 ≤ x.toRat → x.toRat ≤ 10 → s = ⟨x, 0⟩) ∧
      x.log10 = .ok (.ofInt s.exponent + (Binary64.ofDecimal s.mantissa).log10)) ∧
    (x.toRat ≤ 0 → x.log10 = .error (.domain (.decimal x) .greaterThan 0)) := by
  refine ⟨fun h => ⟨?once, fun s hs => ⟨?low, ?high, ?small, ?great, hs.kept, hs.log10_eq h⟩⟩, ?refused⟩
  case once =>
    have ⟨s, hs⟩ := exists_reduces h
    exact ⟨s, hs, fun t ht => ht.unique hs⟩
  case low     => exact hs.mantissa_mem.1
  case high    => exact hs.mantissa_mem.2
  case small   => exact fun hl => (hs.raised hl).1.exact
  case great   =>
    intro hg
    have ⟨he, hl, _⟩ := hs.lowered hg
    exact ⟨he, hl.close⟩
  case refused =>
    intro h
    have hc : x.coefficient ≤ 0 := not_lt.1 fun hc => (toRat_pos hc).not_ge h
    rw [log10, if_pos hc]

open scoped Binary64.Rounded

-- Just above a hundred the loop does not stop at ten, and what is lost is more than the half of the last
-- place that a single rounding may lose.
theorem log10_reduces_at_borders :
    (10 < (scaled 100000000000000049 (-15)).toRat ∧
      Reduces (scaled 100000000000000049 (-15)) ⟨scaled 1000000000000001 (-15), 2⟩ ∧
      |(scaled 1000000000000001 (-15)).toRat - (scaled 100000000000000049 (-15)).toRat / 10 ^ (2 : Int)|
        ≤ 5 / 9 / 10 ^ 15) ∧
    ((scaled 325 (-5)).toRat < 1 ∧ Reduces (scaled 325 (-5)) ⟨scaled 325000 (-5), -3⟩ ∧
      (scaled 325000 (-5)).toRat * 10 ^ (-3 : Int) = (scaled 325 (-5)).toRat) ∧
    (1 ≤ (ofInt 10).toRat ∧ (ofInt 10).toRat ≤ 10 ∧ ∀ s, Reduces (ofInt 10) s → s = ⟨ofInt 10, 0⟩) ∧
    ((ofInt 0).toRat ≤ 0 ∧ (ofInt 0).log10 = .error (.domain (.decimal (ofInt 0)) .greaterThan 0)) := by
  refine ⟨?hundred, ?small, ?ten, ?zero⟩
  case hundred =>
    have h : 10 < (scaled 100000000000000049 (-15)).toRat := by norm_num [toRat, scaled]
    have hr : Reduces (scaled 100000000000000049 (-15)) ⟨scaled 1000000000000001 (-15), 2⟩ :=
      .lower (by decide) (.next (by decide) (.next (by decide +kernel) (.stop (by decide +kernel))))
    obtain ⟨-, -, -, hg, -⟩ := ((log10_reduces _).1 (by linarith)).2 _ hr
    exact ⟨h, hr, (hg h).2⟩
  case small =>
    have h₀ : 0 < (scaled 325 (-5)).toRat := by norm_num [toRat, scaled]
    have h₁ : (scaled 325 (-5)).toRat < 1 := by norm_num [toRat, scaled]
    have hr : Reduces (scaled 325 (-5)) ⟨scaled 325000 (-5), -3⟩ :=
      .raise (by decide) (.next (by decide) (.next (by decide +kernel) (.next (by decide +kernel)
        (.stop (by decide +kernel)))))
    obtain ⟨-, -, hl, -⟩ := ((log10_reduces _).1 h₀).2 _ hr
    exact ⟨h₁, hr, hl h₁⟩
  case ten =>
    have h₁ : 1 ≤ (ofInt 10).toRat := by norm_num [toRat_ofInt]
    have h₂ : (ofInt 10).toRat ≤ 10 := by norm_num [toRat_ofInt]
    refine ⟨h₁, h₂, fun s hs => ?_⟩
    obtain ⟨-, -, -, -, hk, -⟩ := ((log10_reduces _).1 (by linarith)).2 s hs
    exact hk h₁ h₂
  case zero =>
    have h : (ofInt 0).toRat ≤ 0 := by norm_num [toRat_ofInt]
    exact ⟨h, (log10_reduces _).2 h⟩

end TermReduction.Decimal
