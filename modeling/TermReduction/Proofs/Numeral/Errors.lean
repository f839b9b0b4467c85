import TermReduction.Numeral
import TermReduction.Proofs.Except

/-!
What can be wrong with a number that is spelt out.
-/

namespace TermReduction.Numeral

-- Integers are refused for their length, alone or in a ratio, and decimals for an exponent that is
-- out of range.
inductive ReadError : Numeral → Error → Prop
  | integer {negative ds} : maxDigits < ds.length → ReadError (.integer negative ds) .tooManyDigits
  | exponent {negative whole fraction e} :
    e ≠ 0 → ReadError (.decimal negative whole fraction e) .outOfRange
  | ratio {negative n d} :
    maxDigits < n.length ∨ maxDigits < d.length → ReadError (.ratio negative n d) .tooManyDigits
  | zeroDenominator {negative n d} :
    digitsValue d = 0 →
    ReadError (.ratio negative n d) (.domain (.number (.integer 0)) .differentFrom 0)

variable {ds : List Char} {e : Error} {negative : Bool}

theorem readDigits_error (h : readDigits ds = .error e) :
    maxDigits < ds.length ∧ e = .tooManyDigits := by
  unfold readDigits at h
  split at h
  case isTrue    => contradiction
  case isFalse d => exact ⟨Nat.lt_of_not_le d, (Except.error.inj h).symm⟩

theorem readInteger_error (h : readInteger negative ds = .error e) :
    maxDigits < ds.length ∧ e = .tooManyDigits := by
  unfold readInteger at h
  cases hd : readDigits ds <;> simp only [hd, Except.map, reduceCtorEq] at h
  case error => exact Except.error.inj h ▸ readDigits_error hd

theorem readDigits_ok {n : Nat} (h : readDigits ds = .ok n) : digitsValue ds = n := by
  unfold readDigits at h
  split at h
  case isTrue  => exact Except.ok.inj h
  case isFalse => contradiction

theorem readReal_error {x : Decimal} {k : Int} (h : readReal x k = .error e) :
    k ≠ 0 ∧ e = .outOfRange := by
  unfold readReal at h
  split at h
  case isTrue => contradiction
  case isFalse hk =>
    simp only [Except.bind_eq_error, Decimal.ensureInRange, Fixed.round] at h
    refine ⟨hk, ?_⟩
    grind

end Numeral

theorem Number.writable_zero : (Number.integer 0).Writable :=
  tenTo_pos maxDigits

theorem Fraction.ofRatio_error {n d : Int} {e : Error} (h : ofRatio n d = .error e) :
    d = 0 ∧ e = .domain (.number (.integer 0)) .differentFrom 0 := by
  unfold ofRatio at h
  split at h
  case isTrue hd =>
    rw [Error.ofOperand, if_pos Number.writable_zero] at h
    exact ⟨hd, (Except.error.inj h).symm⟩
  case isFalse => contradiction

theorem Numeral.read_error {x : Numeral} {e : Error} (h : x.read = .error e) : x.ReadError e := by
  cases x <;> simp only [read, Except.bind_eq_error, Except.pure_eq_ok, reduceCtorEq, and_false,
    exists_false, or_false] at h
  case integer =>
    have ⟨hl, he⟩ := readInteger_error h
    exact he ▸ .integer hl
  case decimal =>
    have ⟨hk, he⟩ := readReal_error h
    exact he ▸ .exponent hk
  case ratio =>
    rcases h with h | ⟨n, _, h | ⟨d, hd, h⟩⟩
    · have ⟨hl, he⟩ := readInteger_error h
      exact he ▸ .ratio (.inl hl)
    · have ⟨hl, he⟩ := readDigits_error h
      exact he ▸ .ratio (.inr hl)
    · have ⟨hz, he⟩ := Fraction.ofRatio_error h
      have hd : digitsValue _ = 0 := (readDigits_ok hd).trans (Int.natCast_eq_zero.1 hz)
      exact he ▸ .zeroDenominator hd

namespace Number

variable {s : String}

theorem read?_eq_none_iff : read? s = .ok none ↔ Numeral.ofString? s = none := by
  unfold read?
  split
  case h_1 h   => simp [h]
  case h_2 x h => cases hx : x.read <;> simp [h, Except.map]

theorem read_eq_ok_iff {v : Number} : read s = .ok v ↔ read? s = .ok (some v) := by
  unfold read? read
  split
  case h_1     => simp
  case h_2 x _ => cases hx : x.read <;> simp [Except.map]

-- A text is refused as a word exactly if it spells no number.
theorem read_eq_invalidIdentifier_iff {token : String} :
    read s = .error (.invalidIdentifier token) ↔ read? s = .ok none ∧ s = token := by
  rw [read?_eq_none_iff]
  unfold read
  split
  case h_1 h   => simp [h]
  case h_2 x h =>
    refine iff_of_false (fun he => ?_) (by simp [h])
    cases Numeral.read_error he

end Number

end TermReduction
