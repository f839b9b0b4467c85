import Mathlib.Data.Int.Order.Basic
import Mathlib.Tactic.Linarith
import Mathlib.Tactic.Ring
import TermReduction.DigitCount
import TermReduction.Rounding

/-!
Rounding to the nearest integer: when it gives zero, when it changes nothing, and how far it moves a
quotient; and the rounding of a number to its leading digits.
-/

namespace TermReduction

theorem roundHalfAway_eq_zero_iff {n d : Int} (hd : d ≠ 0) :
    roundHalfAway n d = 0 ↔ 2 * n.natAbs < d.natAbs := by
  have hp : 0 < d.natAbs := Int.natAbs_pos.2 hd
  have hq : (2 * n.natAbs + d.natAbs) / (2 * d.natAbs) = 0 ↔ 2 * n.natAbs < d.natAbs := by
    rw [Nat.div_eq_zero_iff_lt (by omega)]
    omega
  by_cases hn : n = 0
  case pos => simp [hn, roundHalfAway_zero_left, hp]
  case neg =>
    rw [← hq, roundHalfAway, Int.mul_eq_zero, Int.mul_eq_zero, Int.sign_eq_zero_iff_zero,
      Int.sign_eq_zero_iff_zero, Int.natCast_eq_zero]
    simp [hn, hd]

theorem roundHalfAway_of_pos {n d : Int} (hn : 0 < n) (hd : 0 < d) :
    roundHalfAway n d = ((2 * n.natAbs + d.natAbs) / (2 * d.natAbs) : Nat) := by
  rw [roundHalfAway, Int.sign_eq_one_of_pos hn, Int.sign_eq_one_of_pos hd, Int.one_mul, Int.one_mul]

theorem roundHalfEven_of_dvd {n d : Nat} (h : d ∣ n) : roundHalfEven n d * d = n := by
  have hm : n % d = 0 := Nat.mod_eq_zero_of_dvd h
  rcases Nat.eq_zero_or_pos d with rfl | hd
  · rw [Nat.mul_zero, Nat.zero_dvd.1 h]
  · rw [roundHalfEven, if_pos (.inl (by omega)), Nat.div_mul_cancel h]

theorem roundHalfEven_le (n d : Nat) : roundHalfEven n d ≤ n / d + 1 := by
  unfold roundHalfEven
  split <;> omega

theorem le_roundHalfEven (n d : Nat) : n / d ≤ roundHalfEven n d := by
  unfold roundHalfEven
  split <;> omega

theorem roundHalfEven_dist_le (n : Nat) {d : Nat} (hd : 0 < d) :
    2 * n ≤ 2 * (roundHalfEven n d * d) + d ∧ 2 * (roundHalfEven n d * d) ≤ 2 * n + d := by
  have hn := Nat.div_add_mod' n d
  have hm := Nat.mod_lt n hd
  unfold roundHalfEven
  split
  case isTrue h  => omega
  case isFalse h =>
    rw [Nat.add_mul, Nat.one_mul]
    omega

-- Comparing two quotients needs no division.
theorem div_le_div_of_mul_le {n d n' d' : Nat} (hd : 0 < d) (hd' : 0 < d') (h : n * d' ≤ n' * d) :
    n / d ≤ n' / d' := by
  rw [Nat.le_div_iff_mul_le hd']
  refine Nat.le_of_mul_le_mul_right ?_ hd
  calc n / d * d' * d = n / d * d * d' := by ring
    _ ≤ n * d'                         := Nat.mul_le_mul_right d' (Nat.div_mul_le_self n d)
    _ ≤ n' * d                         := h

theorem roundHalfEven_mono {n d n' d' : Nat} (hd : 0 < d) (hd' : 0 < d') (h : n * d' ≤ n' * d) :
    roundHalfEven n d ≤ roundHalfEven n' d' := by
  have hn := Nat.div_add_mod' n d
  have hn' := Nat.div_add_mod' n' d'
  rcases Nat.lt_or_eq_of_le (div_le_div_of_mul_le hd hd' h) with hq | hq
  · have := roundHalfEven_le n d
    unfold roundHalfEven at this ⊢
    split <;> split <;> omega
  · -- the quotients are equal, so the remainders decide
    have hr : n % d * d' ≤ n' % d' * d := by
      rw [← hn, ← hn', ← hq] at h
      nlinarith
    have hle : 2 * (n' % d') ≤ d' → 2 * (n % d) ≤ d := by
      intro h'
      refine Nat.le_of_mul_le_mul_right ?_ hd'
      nlinarith
    have hlt : 2 * (n' % d') < d' → 2 * (n % d) < d := by
      intro h'
      refine Nat.lt_of_mul_lt_mul_right (a := d') ?_
      nlinarith
    unfold roundHalfEven
    rw [← hq]
    split <;> split <;> omega

theorem lt_tenTo_digitCount (n : Nat) : n < tenTo (digitCount n) :=
  (digitCount_le_iff (digitCount_pos n)).1 (Nat.le_refl _)

theorem tenTo_digitCount_le {n : Nat} (h : 0 < n) : tenTo (digitCount n - 1) ≤ n := by
  by_cases hd : digitCount n = 1
  case pos => rwa [hd]
  case neg =>
    have hp := digitCount_pos n
    rw [← Nat.not_lt, ← digitCount_le_iff (by omega)]
    omega

theorem tenTo_dvd {j k : Nat} (h : j ≤ k) : tenTo j ∣ tenTo k :=
  Nat.pow_dvd_pow 10 h

-- A number of at most `p` significant digits: what follows them are zeros.
def HasDigits (p n : Nat) : Prop :=
  ∃ m k, n = m * tenTo k ∧ m < tenTo p

-- The number of digits behind the first `p`.
def excess (p n : Nat) : Nat :=
  digitCount n - p

-- The number nearest to `n` that has at most `p` significant digits, halves to the even neighbour.
def leading (p n : Nat) : Nat :=
  roundHalfEven n (tenTo (excess p n)) * tenTo (excess p n)

section Leading

variable {p n : Nat}

theorem lt_tenTo_add_excess (p n : Nat) : n < tenTo (p + excess p n) := by
  apply Nat.lt_of_lt_of_le (lt_tenTo_digitCount n)
  apply tenTo_le
  rw [excess]
  omega

theorem tenTo_add_excess_le (hp : 0 < p) (h : 0 < excess p n) : tenTo (p - 1 + excess p n) ≤ n := by
  have hd : ¬digitCount n ≤ p - 1 + excess p n := by
    rw [excess] at h ⊢
    omega
  rw [digitCount_le_iff (by omega)] at hd
  exact Nat.le_of_not_lt hd

theorem tenTo_excess_dvd_iff (hp : 0 < p) : tenTo (excess p n) ∣ n ↔ HasDigits p n := by
  constructor
  case mp =>
    have h := lt_tenTo_add_excess p n
    generalize excess p n = k at h ⊢
    rintro ⟨m, rfl⟩
    rw [tenTo_add, Nat.mul_comm (tenTo p)] at h
    exact ⟨m, k, Nat.mul_comm .., Nat.lt_of_mul_lt_mul_left h⟩
  case mpr =>
    rintro ⟨m, k, rfl, hm⟩
    have h : m * tenTo k < tenTo (p + k) := by
      rw [tenTo_add]
      exact Nat.mul_lt_mul_of_pos_right hm (tenTo_pos k)
    have hd := (digitCount_le_iff (by omega)).2 h
    apply Nat.dvd_mul_left_of_dvd
    apply tenTo_dvd
    rw [excess]
    omega

theorem leading_zero (p : Nat) : leading p 0 = 0 :=
  roundHalfEven_of_dvd (Nat.dvd_zero _)

theorem HasDigits.leading_eq (hp : 0 < p) (h : HasDigits p n) : leading p n = n :=
  roundHalfEven_of_dvd ((tenTo_excess_dvd_iff hp).2 h)

-- A carry out of the first digit leaves a power of ten.
theorem hasDigits_leading (hp : 0 < p) (n : Nat) : HasDigits p (leading p n) := by
  have h := lt_tenTo_add_excess p n
  rw [leading]
  generalize excess p n = k at h ⊢
  rw [tenTo_add, ← Nat.div_lt_iff_lt_mul (tenTo_pos k)] at h
  have hr : roundHalfEven n (tenTo k) ≤ tenTo p := Nat.le_trans (roundHalfEven_le n _) h
  rcases Nat.lt_or_eq_of_le hr with hlt | heq
  · exact ⟨_, k, rfl, hlt⟩
  · have h₁ : tenTo 1 ≤ tenTo p := tenTo_le hp
    exact ⟨1, p + k, by rw [heq, Nat.one_mul, tenTo_add], Nat.lt_of_lt_of_le (by decide) h₁⟩

theorem leading_eq_iff (hp : 0 < p) : leading p n = n ↔ HasDigits p n :=
  ⟨fun h => h ▸ hasDigits_leading hp n, HasDigits.leading_eq hp⟩

-- The error is at most half a unit of the last digit that is kept.
theorem leading_dist_le (hp : 0 < p) (n : Nat) :
    2 * tenTo (p - 1) * n ≤ 2 * tenTo (p - 1) * leading p n + n ∧
      2 * tenTo (p - 1) * leading p n ≤ 2 * tenTo (p - 1) * n + n := by
  rcases Nat.eq_zero_or_pos (excess p n) with he | he
  · have hl : leading p n = n := by
      rw [leading, he]
      exact roundHalfEven_of_dvd (Nat.one_dvd n)
    rw [hl]
    exact ⟨Nat.le_add_right .., Nat.le_add_right ..⟩
  · have hn := tenTo_add_excess_le hp he
    obtain ⟨h₁, h₂⟩ := roundHalfEven_dist_le n (tenTo_pos (excess p n))
    rw [tenTo_add] at hn
    rw [← leading] at h₁ h₂
    have hl := Nat.mul_le_mul_left (tenTo (p - 1)) h₁
    have hu := Nat.mul_le_mul_left (tenTo (p - 1)) h₂
    constructor <;> linarith

theorem natAbs_sub_leading_le (hp : 0 < p) (n : Nat) :
    2 * tenTo (p - 1) * ((n : Int) - leading p n).natAbs ≤ n := by
  obtain ⟨h₁, h₂⟩ := leading_dist_le hp n
  rcases Nat.le_total (leading p n) n with h | h
  · rw [← Int.ofNat_sub h, Int.natAbs_natCast, Nat.mul_sub]
    omega
  · rw [← Int.natAbs_neg, Int.neg_sub, ← Int.ofNat_sub h, Int.natAbs_natCast, Nat.mul_sub]
    omega

theorem tenTo_dvd_leading {j : Nat} (h : tenTo j ∣ n) : tenTo j ∣ leading p n := by
  rcases Nat.le_total (excess p n) j with hj | hj
  · rw [leading, roundHalfEven_of_dvd (Nat.dvd_trans (tenTo_dvd hj) h)]
    exact h
  · exact Nat.dvd_mul_left_of_dvd (tenTo_dvd hj) _

end Leading

end TermReduction
