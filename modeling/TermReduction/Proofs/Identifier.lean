import TermReduction.Proofs.Numeral.Spelling
import TermReduction.Text.Letter

/-!
No identifier spells a number: its characters are hyphens and letters, and no letter is a digit.
-/

namespace TermReduction

-- The ranges of letters beyond ASCII begin behind the digits.
theorem letterRanges_above_digits : ∀ r ∈ letterRanges, '9'.toNat < r.1 := by
  decide +kernel

theorem isAlpha_above_digits {c : Char} (h : c.isAlpha) : '9'.toNat < c.toNat := by
  cases (Bool.or_eq_true ..).mp h
  case inl h =>
    have hu : 'A'.val ≤ c.val := (of_decide_eq_true h).1
    exact Nat.lt_of_lt_of_le (by decide) (UInt32.le_iff_toNat_le.1 hu)
  case inr h =>
    have hl : 'a'.val ≤ c.val := of_decide_eq_true (Bool.and_eq_true_iff.1 h).1
    exact Nat.lt_of_lt_of_le (by decide) (UInt32.le_iff_toNat_le.1 hl)

theorem isLetter_above_digits {c : Char} (h : isLetter c) : '9'.toNat < c.toNat := by
  simp only [isLetter, Bool.or_eq_true, List.any_eq_true, Bool.and_eq_true, decide_eq_true_eq] at h
  cases h
  case inl h => exact isAlpha_above_digits h
  case inr h =>
    obtain ⟨r, hr, hl, _⟩ := h
    exact Nat.lt_of_lt_of_le (letterRanges_above_digits r hr) hl

theorem isDigit_letter {c : Char} (h : isLetter c) : c.isDigit = false := by
  apply eq_false_of_ne_true
  intro hd
  exact Nat.not_le_of_lt (isLetter_above_digits h) (Char.isDigit_iff_toNat.1 hd).2

theorem isDigit_identifier {name : String} (h : isIdentifier name) :
    ∀ c ∈ name.toList, c.isDigit = false := by
  intro c hc
  simp only [isIdentifier, Bool.and_eq_true, List.all_eq_true, Bool.or_eq_true,
    decide_eq_true_eq] at h
  cases h.1 c hc
  case inl h => exact h ▸ rfl
  case inr h => exact isDigit_letter h

theorem Numeral.ofString?_identifier {name : String} (h : isIdentifier name) :
    ofString? name = none :=
  ofChars?_noDigit (isDigit_identifier h)

end TermReduction
