import TermReduction.Power

/-!
The number of decimal digits of a natural number. It is counted in blocks, so that a number of a
million digits takes a handful of divisions; `digitCount_eq` says that it is the number of digits
that are written.
-/

namespace TermReduction

-- A number of decimal places that every number of `b + 1` bits or more has beyond its first digit:
-- ten to the power 59 is just below two to the power 196.
def placesOfBits (b : Nat) : Nat :=
  b * 59 / 196

def digitCount (n : Nat) : Nat :=
  if n < 10 then 1
  else
    let k := max 1 (placesOfBits n.log2)
    k + digitCount (n / tenTo k)
termination_by n
decreasing_by
  have h : 10 ≤ tenTo (max 1 (placesOfBits n.log2)) := tenTo_le (Nat.le_max_left 1 _)
  exact Nat.div_lt_self (by omega) (by omega)

theorem tenTo_placesOfBits_le (b : Nat) : tenTo (placesOfBits b) ≤ twoTo b := by
  apply Nat.le_of_not_lt
  intro h
  have h₁ : Nat.pow (twoTo b) 196 < Nat.pow (tenTo (placesOfBits b)) 196 :=
    Nat.pow_lt_pow_left h (by decide)
  have h₂ : Nat.pow (tenTo (placesOfBits b)) 196 ≤ Nat.pow (tenTo 59) b := by
    have hb : placesOfBits b * 196 ≤ 59 * b := by
      simp only [placesOfBits]
      omega
    have := tenTo_le hb
    simpa only [tenTo, Nat.pow_eq, Nat.pow_mul] using this
  have h₃ : Nat.pow (tenTo 59) b ≤ Nat.pow (twoTo 196) b :=
    Nat.pow_le_pow_left (by decide) b
  have h₄ : Nat.pow (twoTo 196) b = Nat.pow (twoTo b) 196 := by
    simp only [twoTo, Nat.pow_eq, ← Nat.pow_mul, Nat.mul_comm]
  exact Nat.lt_irrefl _ (h₄ ▸ Nat.lt_of_lt_of_le h₁ (Nat.le_trans h₂ h₃))

theorem digitCount_pos (n : Nat) : 0 < digitCount n := by
  rw [digitCount]
  split
  · exact Nat.one_pos
  · exact Nat.add_pos_left (Nat.le_max_left 1 _) _

theorem digitCount_le_iff {n k : Nat} (hk : 0 < k) : digitCount n ≤ k ↔ n < tenTo k := by
  induction n using Nat.strongRecOn generalizing k with
  | _ n ih =>
    rw [digitCount]
    split
    case isTrue h =>
      have := tenTo_le hk
      rw [Nat.succ_eq_add_one, Nat.zero_add, tenTo_one] at this
      omega
    case isFalse h =>
      -- the block is no longer than the number, so the rest is not zero
      have hb : tenTo (max 1 (placesOfBits n.log2)) ≤ n := by
        rcases Nat.le_total 1 (placesOfBits n.log2) with h₁ | h₁
        · rw [Nat.max_eq_right h₁]
          exact Nat.le_trans (tenTo_placesOfBits_le _) (Nat.log2_self_le (by omega))
        · rw [Nat.max_eq_left h₁, tenTo_one]
          omega
      have ht : 10 ≤ tenTo (max 1 (placesOfBits n.log2)) := tenTo_le (Nat.le_max_left 1 _)
      generalize max 1 (placesOfBits n.log2) = b at hb ht
      show b + digitCount (n / tenTo b) ≤ k ↔ n < tenTo k
      have hp := digitCount_pos (n / tenTo b)
      by_cases hkb : k ≤ b
      · have := tenTo_le hkb
        omega
      · obtain ⟨j, rfl⟩ := Nat.exists_eq_add_of_lt (Nat.lt_of_not_le hkb)
        have hlt : n / tenTo b < n := Nat.div_lt_self (by omega) (by omega)
        have hd : n / tenTo b < tenTo (j + 1) ↔ n < tenTo (j + 1) * tenTo b :=
          Nat.div_lt_iff_lt_mul (by omega)
        have he : tenTo (b + j + 1) = tenTo (j + 1) * tenTo b := by
          rw [← tenTo_add, Nat.add_comm (j + 1), Nat.add_assoc]
        rw [he, ← hd, ← ih _ hlt (Nat.succ_pos j)]
        omega

theorem digitCount_eq (n : Nat) : digitCount n = (Nat.toDigits 10 n).length := by
  have h (k : Nat) (hk : 0 < k) : digitCount n ≤ k ↔ (Nat.toDigits 10 n).length ≤ k :=
    (digitCount_le_iff hk).trans (Nat.length_toDigits_le_iff (by decide) hk).symm
  have h₁ := (h _ (digitCount_pos n)).1 (Nat.le_refl _)
  have h₂ := (h _ Nat.length_toDigits_pos).2 (Nat.le_refl _)
  omega

end TermReduction
