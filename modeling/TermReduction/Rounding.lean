import TermReduction.Power

/-!
Rounding of exact quotients to integers: halves away from zero and halves to the even neighbour.
Products with a power of ten and quotients by one do not form powers that the result does not need,
so that the exponent may be far larger than the number.
-/

namespace TermReduction

-- The integer nearest to `n / d`, halves away from zero; zero if `d` is zero.
def roundHalfAway (n d : Int) : Int :=
  n.sign * d.sign * ((2 * n.natAbs + d.natAbs) / (2 * d.natAbs) : Nat)

theorem roundHalfAway_neg_left (n d : Int) : roundHalfAway (-n) d = -roundHalfAway n d := by
  simp only [roundHalfAway, Int.sign_neg, Int.natAbs_neg, Int.neg_mul]

theorem roundHalfAway_neg_right (n d : Int) : roundHalfAway n (-d) = -roundHalfAway n d := by
  simp only [roundHalfAway, Int.sign_neg, Int.natAbs_neg, Int.mul_neg, Int.neg_mul]

theorem roundHalfAway_zero_left (d : Int) : roundHalfAway 0 d = 0 := by
  simp [roundHalfAway]

-- The same for `d` not zero, by a division of the absolute values: one more if twice the remainder is the
-- divisor at least, and below zero if one of the two integers is and the other is not.
def divideHalfAway (n d : Int) : Int :=
  let quotient := n.natAbs / d.natAbs
  let remainder := n.natAbs % d.natAbs
  let magnitude : Nat := if d.natAbs ≤ 2 * remainder then quotient + 1 else quotient
  if (n < 0) ≠ (d < 0) then -magnitude else magnitude

-- Half of the divisor, added before the division, carries exactly where the remainder is half of it at
-- least.
theorem add_half_div (n : Nat) {d : Nat} (hd : 0 < d) :
    (2 * n + d) / (2 * d) = if d ≤ 2 * (n % d) then n / d + 1 else n / d := by
  have hn := Nat.div_add_mod n d
  have hm := Nat.mod_lt n hd
  have hs : 2 * n + d = 2 * (n % d) + d + 2 * d * (n / d) := by
    rw [Nat.mul_assoc]
    omega
  rw [hs, Nat.add_mul_div_left _ _ (by omega)]
  split
  case isTrue h  =>
    have hq : (2 * (n % d) + d) / (2 * d) = 1 := Nat.div_eq_of_lt_le (by omega) (by omega)
    rw [hq, Nat.add_comm]
  case isFalse h => rw [Nat.div_eq_of_lt (by omega), Nat.zero_add]

theorem sign_mul_sign {n d : Int} (hn : n ≠ 0) (hd : d ≠ 0) :
    n.sign * d.sign = if (n < 0) ≠ (d < 0) then -1 else 1 := by
  rcases Int.lt_or_gt_of_ne hn with hn | hn <;> rcases Int.lt_or_gt_of_ne hd with hd | hd
  all_goals
    simp [hn, hd, Int.sign_eq_one_of_pos, Int.sign_eq_neg_one_of_neg, Int.not_lt_of_ge, Int.le_of_lt]

theorem divideHalfAway_eq (n : Int) {d : Int} (hd : d ≠ 0) : divideHalfAway n d = roundHalfAway n d := by
  by_cases hn : n = 0
  case pos => simp [hn, hd, divideHalfAway, roundHalfAway_zero_left]
  case neg =>
    rw [roundHalfAway, sign_mul_sign hn hd, add_half_div _ (Int.natAbs_pos.2 hd), divideHalfAway]
    split
    · rw [Int.neg_one_mul]
    · rw [Int.one_mul]

-- The integer nearest to `n / d`, halves to the even neighbour.
def roundHalfEven (n d : Nat) : Nat :=
  if 2 * (n % d) < d ∨ 2 * (n % d) = d ∧ n / d % 2 = 0 then n / d else n / d + 1

-- The integer nearest to the square root of `n / d`, halves to the even neighbour.
def rootHalfEven (n d : Nat) : Nat :=
  let s := (n / d).sqrt
  let square := (2 * s + 1) * (2 * s + 1) * d
  if 4 * n < square ∨ 4 * n = square ∧ s % 2 = 0 then s else s + 1

-- A number of digits that is surely enough to write `n`.
def width (n : Nat) : Nat :=
  n.log2 + 1

theorem lt_tenTo_width (n : Nat) : n < tenTo (width n) :=
  Nat.lt_of_lt_of_le Nat.lt_log2_self (twoTo_le_tenTo _)

-- The product `c * 10 ^ k`. Zero stays zero however far `k` grows.
def scaleUp (c : Int) (k : Nat) : Int :=
  if c = 0 then 0 else c * tenTo k

theorem scaleUp_eq (c : Int) (k : Nat) : scaleUp c k = c * tenTo k := by
  unfold scaleUp
  split
  · simp_all
  · rfl

-- The integer nearest to `c / 10 ^ k`, halves away from zero. A quotient below one half stays so
-- however far `k` grows, so no power of ten beyond that is formed.
def roundShift (c : Int) (k : Nat) : Int :=
  roundHalfAway c (tenTo (min k (width c.natAbs + 1)))

-- The integer part of `c / 10 ^ k`, cut off toward zero.
def truncateShift (c : Int) (k : Nat) : Int :=
  c.tdiv (tenTo (min k (width c.natAbs)))

theorem tdiv_eq_zero {c : Int} {d : Nat} (h : c.natAbs < d) : c.tdiv d = 0 := by
  rw [← Int.natAbs_eq_zero, Int.natAbs_tdiv]
  exact Nat.div_eq_of_lt (by simpa using h)

theorem truncateShift_eq (c : Int) (k : Nat) : truncateShift c k = c.tdiv (tenTo k) := by
  rcases Nat.le_total k (width c.natAbs) with h | h
  · rw [truncateShift, Nat.min_eq_left h]
  · have h₁ := lt_tenTo_width c.natAbs
    have h₂ := Nat.lt_of_lt_of_le h₁ (tenTo_le h)
    rw [truncateShift, Nat.min_eq_right h, tdiv_eq_zero h₁, tdiv_eq_zero h₂]

theorem roundHalfAway_eq_zero {c : Int} {d : Nat} (h : 2 * c.natAbs < d) :
    roundHalfAway c d = 0 := by
  have : (2 * c.natAbs + d) / (2 * d) = 0 := Nat.div_eq_of_lt (by omega)
  simp [roundHalfAway, this]

theorem roundShift_eq (c : Int) (k : Nat) : roundShift c k = roundHalfAway c (tenTo k) := by
  rcases Nat.le_total k (width c.natAbs + 1) with h | h
  · rw [roundShift, Nat.min_eq_left h]
  · have h₁ : 2 * c.natAbs < tenTo (width c.natAbs + 1) := by
      have := lt_tenTo_width c.natAbs
      rw [tenTo_succ]
      omega
    have h₂ := Nat.lt_of_lt_of_le h₁ (tenTo_le h)
    rw [roundShift, Nat.min_eq_right h, roundHalfAway_eq_zero h₁, roundHalfAway_eq_zero h₂]

end TermReduction
