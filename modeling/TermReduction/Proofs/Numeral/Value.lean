import TermReduction.Proofs.Fixed.Nearest
import TermReduction.Proofs.Fraction.Value
import TermReduction.Proofs.Numeral.Errors
import TermReduction.Proofs.Numeral.Grammar

/-!
The number that is read is the number that the spelling denotes: integers and ratios exactly, decimals
rounded once.
-/

namespace TermReduction

namespace Numeral

-- What reading the number gives.
inductive Denotes : Numeral → Except Error Number → Prop
  | integer {negative ds} {n : Int} :
    (Numeral.integer negative ds).value = n → Denotes (.integer negative ds) (.ok (.integer n))
  | decimal {negative whole fraction e} : Denotes (.decimal negative whole fraction e)
    (.ok (.real (.nearest (Numeral.decimal negative whole fraction e).value)))
  | ratio {negative n d} {q : Fraction} : positional d ≠ 0 → q.Reduced →
    q.toRat = (Numeral.ratio negative n d).value → Denotes (.ratio negative n d) (.ok (.rational q))
  | zeroDenominator {negative n d} : positional d = 0 →
    Denotes (.ratio negative n d) (.error (.domain (.number (.integer 0)) .differentFrom 0))

variable {negative : Bool} {ds : List Char} {e : Int} {x : Numeral} {r : Except Error Number}

theorem cast_applySign (negative : Bool) (n : Nat) :
    (applySign negative n : Rat) = signed negative n := by
  unfold applySign signed
  split <;> simp

theorem signed_mul (negative : Bool) (p q : Rat) : signed negative p * q = signed negative (p * q) := by
  unfold signed
  split <;> ring

theorem signed_div (negative : Bool) (p q : Rat) : signed negative p / q = signed negative (p / q) := by
  rw [div_eq_mul_inv, signed_mul, div_eq_mul_inv]

-- The digits behind the point are below those in front of it by as many powers of ten as there are.
theorem toRat_decimalOf (negative : Bool) (whole fraction : List Char) (e : Int) :
    (decimalOf negative (whole ++ fraction) (e - fraction.length)).toRat =
      (Numeral.decimal negative whole fraction e).value := by
  have hp : ((10 : Rat) ^ fraction.length) ≠ 0 := by positivity
  have hv : ((positional whole * tenTo fraction.length + positional fraction : Nat) : Rat) =
      (positional whole + positional fraction / 10 ^ fraction.length) * 10 ^ fraction.length := by
    rw [Nat.cast_add, Nat.cast_mul, add_mul, div_mul_cancel₀ _ hp, tenTo, Nat.pow_eq, Nat.cast_pow]
    rfl
  rw [Decimal.toRat, decimalOf, value, digitsValue_append, digitsValue_eq, digitsValue_eq, cast_applySign,
    signed_mul, hv, zpow_sub₀ (by decide), zpow_natCast, mul_assoc, mul_div_cancel₀ _ hp]

theorem readDigits_eq_ok (h : ds.length ≤ maxDigits) : readDigits ds = .ok (positional ds) := by
  rw [readDigits, if_pos h, digitsValue_eq]

theorem readDigits_eq_error (h : ¬ds.length ≤ maxDigits) : readDigits ds = .error .tooManyDigits :=
  if_neg h

theorem readInteger_eq_ok (h : ds.length ≤ maxDigits) :
    readInteger negative ds = .ok (applySign negative (positional ds)) := by
  rw [readInteger, readDigits_eq_ok h]
  rfl

theorem readInteger_eq_error (h : ¬ds.length ≤ maxDigits) :
    readInteger negative ds = .error .tooManyDigits := by
  rw [readInteger, readDigits_eq_error h]
  rfl

theorem readReal_eq_ok {y : Decimal} (h : e = 0 ∨ y.InRange ∧
      (y.coefficient = 0 ∨ y.leadingExponent + Fixed.places < Decimal.precision)) :
    readReal y e = .ok (.nearest y.toRat) := by
  rw [← Fixed.ofDecimal_eq, readReal]
  split
  case isTrue     => rfl
  case isFalse he =>
    obtain ⟨hr, hl⟩ := h.resolve_left he
    rw [Decimal.ensureInRange, if_pos hr, Except.ok_bind, Fixed.round, if_neg]
    rintro ⟨hc, hp⟩
    exact absurd hp (Int.not_le.2 (hl.resolve_left hc))

theorem readReal_eq_error {y : Decimal} (h : ¬(e = 0 ∨ y.InRange ∧
      (y.coefficient = 0 ∨ y.leadingExponent + Fixed.places < Decimal.precision))) :
    readReal y e = .error .outOfRange := by
  obtain ⟨he, h⟩ := not_or.1 h
  rw [readReal, if_neg he, Decimal.ensureInRange]
  split
  case isTrue hr =>
    obtain ⟨hc, hp⟩ := not_or.1 fun hl => h ⟨hr, hl⟩
    exact if_pos ⟨hc, Int.not_lt.1 hp⟩
  case isFalse   => rfl

-- What is not read is too long or out of range.
theorem read_eq_error (h : ¬x.Readable) :
    x.read = .error .tooManyDigits ∨ x.read = .error .outOfRange := by
  cases x
  case integer =>
    rw [read, readInteger_eq_error h]
    exact .inl rfl
  case decimal =>
    rw [read, readReal_eq_error h]
    exact .inr rfl
  case ratio negative n d =>
    rw [read]
    by_cases hn : n.length ≤ maxDigits
    case pos =>
      rw [readInteger_eq_ok hn, readDigits_eq_error fun hd => h ⟨hn, hd⟩]
      exact .inl rfl
    case neg =>
      rw [readInteger_eq_error hn]
      exact .inl rfl

theorem denotes_read (h : x.Readable) : x.Denotes x.read := by
  cases x
  case integer negative ds =>
    rw [read, readInteger_eq_ok h]
    exact .integer (cast_applySign negative _).symm
  case decimal =>
    rw [read, readReal_eq_ok h, toRat_decimalOf]
    exact .decimal
  case ratio negative n d =>
    rw [read, readInteger_eq_ok h.1, readDigits_eq_ok h.2]
    show Denotes _ (Fraction.ofRatio _ _ >>= _)
    by_cases hd : positional d = 0
    case pos =>
      rw [Fraction.ofRatio, if_pos (Int.natCast_eq_zero.2 hd), Error.ofOperand,
        if_pos Number.writable_zero]
      exact .zeroDenominator hd
    case neg =>
      have hz : (positional d : Int) ≠ 0 := Int.natCast_ne_zero.2 hd
      rw [Fraction.ofRatio, if_neg hz]
      refine .ratio hd (.reduce _ hz) ?_
      rw [Fraction.toRat_reduce _ hz, cast_applySign, Int.cast_natCast, signed_div]
      rfl

-- A number that is spelt has no two readings.
theorem Denotes.unique {r' : Except Error Number} : x.Denotes r → x.Denotes r' → r = r'
  | .integer hm, .integer hn                => by rw [Int.cast_inj.1 (hm.symm.trans hn)]
  | .decimal, .decimal                      => rfl
  | .ratio _ hq hv, .ratio _ hr hw          => by rw [hq.eq_of_toRat_eq hr (hv.trans hw.symm)]
  | .ratio hd _ _, .zeroDenominator hz      => absurd hz hd
  | .zeroDenominator hz, .ratio hd _ _      => absurd hz hd
  | .zeroDenominator _, .zeroDenominator _  => rfl

theorem read_eq_iff (h : x.Readable) : x.read = r ↔ x.Denotes r :=
  ⟨fun hr => hr ▸ denotes_read h, (denotes_read h).unique⟩

end Numeral

namespace Number

open Numeral

variable {s : String}

theorem read?_eq_some_iff {v : Number} :
    read? s = .ok (some v) ↔ ∃ x, ofString? s = some x ∧ x.read = .ok v := by
  unfold read?
  split
  case h_1 h   => simp [h]
  case h_2 x h => cases hx : x.read <;> simp [h, hx, Except.map]

theorem read?_eq_error_iff {e : Error} :
    read? s = .error e ↔ ∃ x, ofString? s = some x ∧ x.read = .error e := by
  unfold read?
  split
  case h_1 h   => simp [h]
  case h_2 x h => cases hx : x.read <;> simp [h, hx, Except.map]

end Number

end TermReduction
