import Mathlib.Data.List.DropRight
import TermReduction.Decimal.Text
import TermReduction.Numeral

/-!
The value of a run of digits, and what padding and cutting zeros do to it.
-/

namespace TermReduction

open Numeral

-- A run of digits, which may be empty.
def AllDigits (ds : List Char) : Prop :=
  ∀ c ∈ ds, c.isDigit

theorem AllDigits.append {ds es : List Char} (h : AllDigits ds) (h' : AllDigits es) :
    AllDigits (ds ++ es) :=
  List.forall_mem_append.2 ⟨h, h'⟩

theorem AllDigits.toDigits (n : Nat) : AllDigits (Nat.toDigits 10 n) :=
  fun _ => Nat.isDigit_of_mem_toDigits (by decide) (by decide)

theorem AllDigits.zeroPadded {k : Nat} {ds : List Char} (h : AllDigits ds) :
    AllDigits (zeroPadded k ds) :=
  AllDigits.append (fun _ hc => List.eq_of_mem_replicate hc ▸ rfl) h

theorem isDigitRun_iff {ds : List Char} : isDigitRun ds ↔ ds ≠ [] ∧ AllDigits ds := by
  simp [isDigitRun, AllDigits]

theorem digitsValue_append (ds es : List Char) :
    digitsValue (ds ++ es) = digitsValue ds * tenTo es.length + digitsValue es := by
  rw [digitsValue, Nat.ofDigitChars_append, Nat.ofDigitChars_eq_ofDigitChars_zero, Nat.mul_comm]
  rfl

theorem digitsValue_replicate_zero (k : Nat) : digitsValue (List.replicate k '0') = 0 := by
  simp [digitsValue]

theorem digitsValue_toDigits (n : Nat) : digitsValue (Nat.toDigits 10 n) = n :=
  Nat.ofDigitChars_ten_toDigits

theorem digitsValue_zeroPadded (k : Nat) (ds : List Char) :
    digitsValue (zeroPadded k ds) = digitsValue ds := by
  simp [zeroPadded, List.leftpad, digitsValue_append, digitsValue_replicate_zero]

theorem length_toDigits_le {n k : Nat} (hk : 0 < k) (h : n < tenTo k) :
    (Nat.toDigits 10 n).length ≤ k :=
  (Nat.length_toDigits_le_iff (by decide) hk).2 h

theorem length_zeroPadded {k : Nat} {ds : List Char} (h : ds.length ≤ k) :
    (zeroPadded k ds).length = k := by
  simp [zeroPadded, List.leftpad]
  omega

theorem Decimal.dropTrailingZeros_prefix (ds : List Char) : dropTrailingZeros ds <+: ds :=
  List.rdropWhile_prefix _ ds

theorem AllDigits.dropTrailingZeros {ds : List Char} (h : AllDigits ds) :
    AllDigits (Decimal.dropTrailingZeros ds) :=
  fun c hc => h c <| (Decimal.dropTrailingZeros_prefix ds).subset hc

-- What is cut off are zeros.
theorem Decimal.dropTrailingZeros_append (ds : List Char) :
    dropTrailingZeros ds ++ List.replicate (ds.length - (dropTrailingZeros ds).length) '0' = ds := by
  have hz : ∀ c ∈ ds.rtakeWhile (· = '0'), c = '0' := fun c hc => by
    simpa using List.mem_rtakeWhile_imp hc
  have ha : dropTrailingZeros ds ++ ds.rtakeWhile (· = '0') = ds := List.rdropWhile_append_rtakeWhile
  have hl : ds.length - (dropTrailingZeros ds).length = (ds.rtakeWhile (· = '0')).length := by
    have := congrArg List.length ha
    rw [List.length_append] at this
    omega
  rw [hl, ← List.eq_replicate_of_mem hz, ha]

-- The places that are cut off are made good by a power of ten.
theorem Decimal.digitsValue_dropTrailingZeros (ds : List Char) :
    digitsValue (dropTrailingZeros ds) * tenTo (ds.length - (dropTrailingZeros ds).length) =
      digitsValue ds := by
  conv => rhs; rw [← dropTrailingZeros_append ds, digitsValue_append, digitsValue_replicate_zero,
    List.length_replicate]
  rfl

end TermReduction
