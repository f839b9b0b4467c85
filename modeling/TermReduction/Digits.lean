import TermReduction.DigitCount

/-!
The decimal digits of a natural number, written in blocks: a long number is cut in the middle and each
half is written on its own. `digits_eq` says that these are the digits that are written one by one.
-/

namespace TermReduction

-- A run of digits with zeros in front up to `k` digits.
def zeroPadded (k : Nat) (ds : List Char) : List Char :=
  ds.leftpad k '0'

-- The number of bits from which on a number is cut.
def blockBits : Nat := 256

theorem tenTo_half_le {n : Nat} (h : blockBits ≤ n.log2) :
    tenTo 1 ≤ tenTo (placesOfBits n.log2 / 2) ∧ tenTo (placesOfBits n.log2 / 2) ≤ n := by
  have hn : n ≠ 0 := by
    rintro rfl
    simp [blockBits] at h
  constructor
  · apply tenTo_le
    simp only [placesOfBits, blockBits] at *
    omega
  · exact Nat.le_trans (tenTo_le (Nat.div_le_self _ 2)) <|
      Nat.le_trans (tenTo_placesOfBits_le _) (Nat.log2_self_le hn)

def digits (n : Nat) : List Char :=
  if n.log2 < blockBits then Nat.toDigits 10 n
  else
    let k := placesOfBits n.log2 / 2
    digits (n / tenTo k) ++ zeroPadded k (digits (n % tenTo k))
termination_by n
decreasing_by
  all_goals
    obtain ⟨h₁, h₂⟩ := tenTo_half_le (Nat.le_of_not_lt ‹¬n.log2 < blockBits›)
    rw [tenTo_one] at h₁
  · exact Nat.div_lt_self (by omega) (by omega)
  · exact Nat.lt_of_lt_of_le (Nat.mod_lt _ (by omega)) h₂

theorem zeroPadded_concat (k : Nat) (ds : List Char) (c : Char) :
    zeroPadded (k + 1) (ds ++ [c]) = zeroPadded k ds ++ [c] := by
  simp [zeroPadded, List.leftpad]

theorem toDigits_concat (n : Nat) {d : Nat} (hn : 0 < n) (hd : d < 10) :
    Nat.toDigits 10 (n * 10 + d) = Nat.toDigits 10 n ++ [d.digitChar] := by
  rw [Nat.mul_comm, ← Nat.toDigits_append_toDigits (by decide) hn hd, Nat.toDigits_of_lt_base hd]

theorem zeroPadded_toDigits (k : Nat) {n d : Nat} (hd : d < 10) :
    zeroPadded (k + 2) (Nat.toDigits 10 (n * 10 + d)) =
      zeroPadded (k + 1) (Nat.toDigits 10 n) ++ [d.digitChar] := by
  rcases Nat.eq_zero_or_pos n with rfl | hn
  · rw [Nat.zero_mul, Nat.zero_add, Nat.toDigits_of_lt_base hd, Nat.toDigits_of_lt_base (by decide)]
    simp [zeroPadded, List.leftpad, List.replicate_succ', Nat.digitChar]
  · rw [toDigits_concat n hn hd, zeroPadded_concat]

-- In front of a block that is filled up with zeros, the digits of another number are those of the sum.
theorem toDigits_append_zeroPadded {m : Nat} (hm : 0 < m) (k : Nat) {r : Nat}
    (hr : r < tenTo (k + 1)) :
    Nat.toDigits 10 m ++ zeroPadded (k + 1) (Nat.toDigits 10 r) =
      Nat.toDigits 10 (m * tenTo (k + 1) + r) := by
  induction k generalizing r with
  | zero =>
    rw [tenTo_one] at *
    rw [toDigits_concat m hm hr, Nat.toDigits_of_lt_base hr]
    rfl
  | succ k ih =>
    rw [tenTo_succ] at hr ⊢
    have hd : r % 10 < 10 := Nat.mod_lt _ (by decide)
    have hq : r / 10 < tenTo (k + 1) := Nat.div_lt_of_lt_mul (Nat.mul_comm .. ▸ hr)
    have hp : 0 < tenTo (k + 1) := Nat.zero_lt_of_lt hq
    have hs : m * (tenTo (k + 1) * 10) + r = (m * tenTo (k + 1) + r / 10) * 10 + r % 10 := by
      rw [← Nat.mul_assoc]
      omega
    rw [hs, toDigits_concat _ (Nat.add_pos_left (Nat.mul_pos hm hp) _) hd, ← ih hq,
      List.append_assoc, ← zeroPadded_toDigits k hd, Nat.div_add_mod']

theorem digits_eq (n : Nat) : digits n = Nat.toDigits 10 n := by
  induction n using Nat.strongRecOn with
  | _ n ih =>
    rw [digits]
    split
    case isTrue => rfl
    case isFalse h =>
      obtain ⟨h₁, h₂⟩ := tenTo_half_le (Nat.le_of_not_lt h)
      generalize placesOfBits n.log2 / 2 = k at h₁ h₂
      show digits (n / tenTo k) ++ zeroPadded k (digits (n % tenTo k)) = _
      cases k with
      | zero => exact absurd h₁ (by decide)
      | succ k =>
        rw [tenTo_one] at h₁
        have hr : n % tenTo (k + 1) < tenTo (k + 1) := Nat.mod_lt _ (by omega)
        rw [ih _ (Nat.div_lt_self (by omega) (by omega)), ih _ (Nat.lt_of_lt_of_le hr h₂),
          toDigits_append_zeroPadded (Nat.div_pos h₂ (by omega)) k hr, Nat.div_add_mod']

end TermReduction
