/-!
Powers of natural numbers, those of ten and of two among them.
-/

namespace TermReduction

def tenTo (k : Nat) : Nat :=
  Nat.pow 10 k

def twoTo (k : Nat) : Nat :=
  Nat.pow 2 k

-- The power `n ^ k`. Powers of one are one however large `k` is, so they are not multiplied out.
def power (n k : Nat) : Nat :=
  if n = 1 then 1 else Nat.pow n k

theorem power_eq (n k : Nat) : power n k = Nat.pow n k := by
  unfold power
  split
  · simp_all
  · rfl

theorem tenTo_pos (k : Nat) : 0 < tenTo k :=
  Nat.pow_pos (by decide)

theorem tenTo_one : tenTo 1 = 10 :=
  rfl

theorem tenTo_succ (k : Nat) : tenTo (k + 1) = tenTo k * 10 :=
  rfl

theorem tenTo_add (j k : Nat) : tenTo (j + k) = tenTo j * tenTo k :=
  Nat.pow_add 10 j k

theorem tenTo_le {j k : Nat} (h : j ≤ k) : tenTo j ≤ tenTo k :=
  Nat.pow_le_pow_right (by decide) h

theorem twoTo_le_tenTo (k : Nat) : twoTo k ≤ tenTo k :=
  Nat.pow_le_pow_left (by decide) k

end TermReduction
