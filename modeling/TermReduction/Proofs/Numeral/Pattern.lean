import TermReduction.Numeral.Pattern
import TermReduction.Proofs.Numeral.Spelling
import TermReduction.Proofs.Text.Pattern

/-!
The texts that are recognised as numbers are those that match the patterns of numbers.
-/

namespace TermReduction.Numeral

open Pattern

variable {a : Pattern} {cs : List Char}

theorem isSign_of_isDigit {c : Char} (h : c.isDigit) : isSign c = false := by
  simp [isSign, (ne_sign_of_isDigit h).1, (ne_sign_of_isDigit h).2]

theorem ne_minus_of_starts {c : Char} (h : (seq (Pattern.some Char.isDigit) a).starts c) :
    decide (c = '-') = false := by
  have hc : c.isDigit := by simpa [starts, isNullable] using h
  exact decide_eq_false (ne_sign_of_isDigit hc).1

theorem splitFraction_of_ne {c : Char} (h : c ≠ '.') : splitFraction (c :: cs) = ([], c :: cs) := by
  unfold splitFraction
  split <;> simp_all

theorem matches_digits : (Pattern.some Char.isDigit).Matches cs ↔ isDigitRun cs :=
  matches_some.trans isDigitRun_iff.symm

theorem seq_sign (ha : ∀ c, a.starts c → isSign c = false) :
    (seq (optional (one isSign)) a).Matches cs ↔ a.Matches (splitSign cs).2 := by
  cases cs
  case nil       => exact seq_optional_nil
  case cons c cs =>
    have hs : (splitSign (c :: cs)).2 = if isSign c then cs else c :: cs := by
      unfold splitSign
      split <;> simp_all [isSign]
    rw [seq_optional_cons ha, hs]

theorem seq_minus (ha : ∀ c, a.starts c → decide (c = '-') = false) :
    (seq (optional (one (· = '-'))) a).Matches cs ↔ a.Matches (splitMinus cs).2 := by
  cases cs
  case nil       => exact seq_optional_nil
  case cons c cs =>
    have hs : (splitMinus (c :: cs)).2 = if decide (c = '-') then cs else c :: cs := by
      unfold splitMinus
      split <;> simp_all
    rw [seq_optional_cons ha, hs]

theorem integer?_isSome_iff : (integer? cs).isSome ↔ integerPattern.Matches cs := by
  have ha : ∀ c, (Pattern.some Char.isDigit).starts c → isSign c = false := by
    intro c hc
    exact isSign_of_isDigit (by simpa using hc)
  rw [integerPattern, seq_sign ha, matches_digits]
  simp [integer?]

theorem exponent?_isSome_iff : (exponent? cs).isSome ↔ (optional exponentPattern).Matches cs := by
  cases cs
  case nil       => simp [exponent?, matches_optional]
  case cons c cs =>
    rw [matches_optional, exponentPattern, seq_one_cons, ← integer?_isSome_iff]
    simp [exponent?, integer?, isExponentMark]

section Digits

variable (ha : ∀ c, a.starts c → c.isDigit = false ∧ c ≠ '.')

include ha

-- The point may be left out, and digits behind it as well.
theorem seq_pointed : (seq pointedPattern a).Matches cs ↔
    cs.takeWhile Char.isDigit ≠ [] ∧ a.Matches (splitFraction (cs.dropWhile Char.isDigit)).2 := by
  have hd : ∀ c, a.starts c → c.isDigit = false := fun c hc => (ha c hc).1
  have hp : ∀ c, (seq (one (· = '.')) (seq (many Char.isDigit) a)).starts c → c.isDigit = false := by
    intro c hc
    simp only [starts, isNullable, Bool.false_and, Bool.or_false, decide_eq_true_eq] at hc
    exact hc ▸ rfl
  rw [pointedPattern, seq_assoc, seq_congr_right seq_assoc, seq_seq_optional, seq_some_many,
    seq_some hd, seq_some hp, ← and_or_left]
  refine and_congr_right fun _ => ?_
  generalize cs.dropWhile Char.isDigit = ds
  cases ds
  case nil       => exact or_iff_left not_seq_one_nil
  case cons d ds =>
    rw [seq_one_cons, seq_many hd]
    by_cases hd : d = '.'
    case pos =>
      have hn : ¬a.Matches (d :: ds) := fun h => (ha d (starts_of_matches h)).2 hd
      simp [hd ▸ hn, hd, splitFraction]
    case neg => simp [hd, splitFraction_of_ne hd]

theorem seq_places : (seq placesPattern a).Matches cs ↔
    (splitFraction cs).1 ≠ [] ∧ a.Matches (splitFraction cs).2 := by
  rw [placesPattern, seq_assoc]
  cases cs
  case nil       => exact iff_of_false not_seq_one_nil fun h => h.1 rfl
  case cons c cs =>
    rw [seq_one_cons, seq_some fun c hc => (ha c hc).1]
    by_cases hc : c = '.'
    case pos => simp [hc, splitFraction]
    case neg => simp [hc, splitFraction_of_ne hc]

end Digits

theorem decimal?_isSome_iff : (decimal? cs).isSome ↔ decimalPattern.Matches cs := by
  have hs : ∀ c, (seq (either pointedPattern placesPattern) (optional exponentPattern)).starts c →
      isSign c = false := by
    intro c hc
    have h : c.isDigit ∨ c = '.' := by
      simpa [starts, isNullable, pointedPattern, placesPattern] using hc
    obtain h | rfl := h
    · exact isSign_of_isDigit h
    · rfl
  have he : ∀ c, (optional exponentPattern).starts c → c.isDigit = false ∧ c ≠ '.' := by
    intro c hc
    have h : c = 'e' ∨ c = 'E' := by
      simpa [starts, isNullable, exponentPattern, isExponentMark] using hc
    obtain rfl | rfl := h <;> decide
  rw [decimalPattern, seq_sign hs, seq_either, seq_pointed he, seq_places he,
    ← exponent?_isSome_iff, ← exponent?_isSome_iff]
  unfold decimal?
  simp only
  generalize (splitSign cs).2 = ds
  -- either there are digits in front, and no point, or the digits before the point are missing
  by_cases hw : ds.takeWhile Char.isDigit = []
  case pos =>
    have hd : ds.dropWhile Char.isDigit = ds := by
      cases ds <;> simp_all
    by_cases hf : (splitFraction ds).1 = [] <;> simp [hw, hd, hf]
  case neg =>
    have hf : (splitFraction ds).1 = [] := by
      unfold splitFraction
      split <;> simp_all
    simp [hw, hf]

theorem ratio?_isSome_iff : (ratio? cs).isSome ↔ ratioPattern.Matches cs := by
  have hd : ∀ c, (seq (one (· = '/')) (Pattern.some Char.isDigit)).starts c → c.isDigit = false := by
    intro c hc
    have h : c = '/' := by simpa [starts, isNullable] using hc
    exact h ▸ rfl
  rw [ratioPattern, seq_minus fun _ => ne_minus_of_starts, seq_some hd]
  unfold ratio?
  simp only
  generalize (splitMinus cs).2 = ds
  cases hr : ds.dropWhile Char.isDigit
  case nil       => exact iff_of_false Bool.false_ne_true fun h => not_seq_one_nil h.2
  case cons c es =>
    rw [seq_one_cons, matches_digits]
    by_cases hc : c = '/'
    case pos => simp [hc]
    case neg => simp [hc]

theorem decimal?_of_integer? (h : (integer? cs).isSome) : (decimal? cs).isSome := by
  have hr : isDigitRun (splitSign cs).2 := by simpa [integer?] using h
  obtain ⟨hne, hd⟩ := isDigitRun_iff.1 hr
  have ht : (splitSign cs).2.takeWhile Char.isDigit = (splitSign cs).2 := List.takeWhile_eq_self_iff.2 hd
  have he : (splitSign cs).2.dropWhile Char.isDigit = [] := List.dropWhile_eq_nil_iff.2 hd
  simp [decimal?, ht, he, hne, splitFraction, exponent?]

theorem ofChars?_isSome_iff :
    (ofChars? cs).isSome ↔ decimalPattern.Matches cs ∨ ratioPattern.Matches cs := by
  rw [← decimal?_isSome_iff, ← ratio?_isSome_iff]
  have hi := @decimal?_of_integer? cs
  cases h : integer? cs <;> cases h' : decimal? cs <;> simp_all [ofChars?]

end TermReduction.Numeral
