import TermReduction.Proofs.Except
import TermReduction.Proofs.Numeral.Spelling

/-!
The text of a number is a spelling of that number, and of no other.
-/

namespace TermReduction

open Numeral

theorem applySign_natAbs (n : Int) : applySign (n < 0) n.natAbs = n := by
  simp only [applySign, decide_eq_true_eq]
  split <;> omega

theorem applySign_mul (negative : Bool) (m n : Nat) :
    applySign negative m * n = applySign negative (m * n) := by
  cases negative
  case false => rfl
  case true  => exact Int.neg_mul m n

theorem isDigitRun_toDigits (n : Nat) : isDigitRun (Nat.toDigits 10 n) :=
  isDigitRun_iff.2 ⟨Nat.toDigits_ne_nil, .toDigits n⟩

theorem toList_toString (n : Int) :
    (toString n).toList = sign (n < 0) ++ Nat.toDigits 10 n.natAbs := by
  rw [Int.toString_eq_repr, Int.repr_eq_if]
  by_cases h : 0 ≤ n
  case pos =>
    have hn : n.toNat = n.natAbs := by omega
    simp [h, hn, sign]
  case neg =>
    have hn : (-n).toNat = n.natAbs := by omega
    simp [h, hn, sign, Int.lt_of_not_ge h]

namespace Fixed

-- The digits before the point.
def wholeDigits (x : Fixed) : List Char :=
  Nat.toDigits 10 (x.units.natAbs / unitsPerOne)

-- The digits of all decimal places.
def paddedDigits (x : Fixed) : List Char :=
  zeroPadded places (Nat.toDigits 10 (x.units.natAbs % unitsPerOne))

-- The digits after the point, of which there is at least one.
def placeDigits (x : Fixed) : List Char :=
  match Decimal.dropTrailingZeros x.paddedDigits with
  | [] => ['0']
  | ds => ds

-- A zero has the same digits whether it is taken to have decimal places or not.
theorem pointedChars_eq (x : Fixed) :
    x.toDecimal.pointedChars = sign (x.units < 0) ++ (x.wholeDigits ++ '.' :: x.placeDigits) := by
  by_cases hz : x.units = 0
  case pos =>
    cases x
    subst hz
    decide +kernel
  case neg =>
    have hc : x.toDecimal.collapseZero = x.toDecimal := if_neg hz
    have hs : x.toDecimal.signChars = sign (x.units < 0) := by
      simp only [sign, decide_eq_true_eq]
      rfl
    have hm : x.toDecimal.magnitude = x.units.natAbs := Nat.mul_one _
    have hp : x.toDecimal.places = places := rfl
    rw [Decimal.pointedChars, hc, hs, Decimal.wholeDigits, Decimal.fractionDigits, hm, hp,
      ← unitsPerOne_eq, digits_eq, digits_eq, List.append_assoc]
    rfl

theorem toList_text (x : Fixed) :
    x.text.toList = sign (x.units < 0) ++ (x.wholeDigits ++ '.' :: x.placeDigits) := by
  rw [text, Decimal.pointed, String.toList_ofList, pointedChars_eq]

theorem allDigits_paddedDigits (x : Fixed) : AllDigits x.paddedDigits :=
  AllDigits.zeroPadded (.toDigits _)

theorem length_paddedDigits (x : Fixed) : x.paddedDigits.length = places := by
  apply length_zeroPadded
  apply length_toDigits_le (by decide)
  exact Nat.mod_lt _ (by decide)

theorem digitsValue_paddedDigits (x : Fixed) :
    digitsValue x.paddedDigits = x.units.natAbs % unitsPerOne := by
  rw [paddedDigits, digitsValue_zeroPadded, digitsValue_toDigits]

theorem allDigits_placeDigits (x : Fixed) : AllDigits x.placeDigits := by
  unfold placeDigits
  split
  case h_1 => simp [AllDigits]
  case h_2 => exact x.allDigits_paddedDigits.dropTrailingZeros

theorem length_placeDigits_le (x : Fixed) : x.placeDigits.length ≤ places := by
  unfold placeDigits
  split
  case h_1 => decide
  case h_2 =>
    rw [← x.length_paddedDigits]
    exact (Decimal.dropTrailingZeros_prefix x.paddedDigits).length_le

-- The places that are not shown are zeros.
theorem digitsValue_placeDigits (x : Fixed) :
    digitsValue x.placeDigits * tenTo (places - x.placeDigits.length) =
      x.units.natAbs % unitsPerOne := by
  have h := Decimal.digitsValue_dropTrailingZeros x.paddedDigits
  rw [length_paddedDigits, digitsValue_paddedDigits] at h
  rw [← h]
  unfold placeDigits
  split
  case h_1 hd =>
    have hz : digitsValue ['0'] = 0 := digitsValue_replicate_zero 1
    rw [hd, hz, Nat.zero_mul]
    exact (Nat.zero_mul _).symm
  case h_2 => rfl

-- Reading back is exact, since there are no more places than a real has.
theorem ofDecimal_spelling (x : Fixed) :
    ofDecimal (decimalOf (x.units < 0) (x.wholeDigits ++ x.placeDigits)
      (0 - x.placeDigits.length)) = x := by
  have hl := x.length_placeDigits_le
  have he : 0 ≤ 0 - (x.placeDigits.length : Int) + places := by omega
  have hn : (0 - (x.placeDigits.length : Int) + places).toNat = places - x.placeDigits.length := by
    omega
  have hv : digitsValue (x.wholeDigits ++ x.placeDigits) * tenTo (places - x.placeDigits.length) =
      x.units.natAbs := by
    rw [digitsValue_append, Nat.add_mul, Nat.mul_assoc, ← tenTo_add, Nat.add_sub_cancel' hl,
      digitsValue_placeDigits, wholeDigits, digitsValue_toDigits, ← unitsPerOne_eq]
    exact Nat.div_add_mod' ..
  have hc : applySign (x.units < 0) (digitsValue (x.wholeDigits ++ x.placeDigits)) *
      tenTo (places - x.placeDigits.length) = x.units := by
    rw [applySign_mul, hv, applySign_natAbs]
  simp only [ofDecimal, decimalOf, if_pos he, hn, scaleUp_eq, hc]

end Fixed

namespace Number

-- How a number is spelt in its text.
def spelling : Number → Numeral
  | integer n  => .integer (n < 0) (Nat.toDigits 10 n.natAbs)
  | rational q =>
    .ratio (q.numerator < 0) (Nat.toDigits 10 q.numerator.natAbs)
      (Nat.toDigits 10 q.denominator.natAbs)
  | real x     => .decimal (x.units < 0) x.wholeDigits x.placeDigits 0

theorem spelling_plain : (v : Number) → v.spelling.Plain
  | integer _  => .integer (isDigitRun_toDigits _)
  | rational _ => .ratio (isDigitRun_toDigits _) (isDigitRun_toDigits _)
  | real x     => .decimal (isDigitRun_toDigits _) x.allDigits_placeDigits

theorem toList_text {v : Number} (h : v.WellFormed) : v.text.toList = v.spelling.chars := by
  cases v
  case integer n => exact toList_toString n
  case rational q =>
    have hd : decide (q.denominator < 0) = false := decide_eq_false (Int.not_lt.2 (Int.le_of_lt h.pos))
    rw [text, Fraction.text, String.toList_append, String.toList_append, toList_toString,
      toList_toString, hd, spelling, chars]
    simp [sign]
  case real x => exact x.toList_text

theorem readDigits_toDigits {n : Int} (h : TermReduction.Writable n) :
    readDigits (Nat.toDigits 10 n.natAbs) = .ok n.natAbs := by
  rw [readDigits, if_pos (length_toDigits_le (by decide) h), digitsValue_toDigits]

theorem readInteger_toDigits {n : Int} (h : TermReduction.Writable n) :
    readInteger (n < 0) (Nat.toDigits 10 n.natAbs) = .ok n := by
  rw [readInteger, readDigits_toDigits h]
  exact congrArg Except.ok (applySign_natAbs n)

-- A fraction in lowest terms is the fraction of its numerator and denominator.
theorem reduce_eq {q : Fraction} (h : q.Reduced) : .reduce q.numerator q.denominator = q := by
  have hs : q.denominator.sign = 1 := Int.sign_eq_one_of_pos h.pos
  simp [Fraction.reduce_eq_gcd, hs, h.coprime]

theorem read_spelling {v : Number} (h : v.WellFormed) (hw : v.Writable) :
    v.spelling.read = .ok v := by
  cases v
  case integer n => simp [spelling, Numeral.read, readInteger_toDigits hw]
  case rational q =>
    have hd : (q.denominator.natAbs : Int) = q.denominator :=
      Int.natAbs_of_nonneg (Int.le_of_lt h.pos)
    have hz : q.denominator ≠ 0 := Int.ne_of_gt h.pos
    simp [spelling, Numeral.read, readInteger_toDigits hw.1, readDigits_toDigits hw.2, hd,
      Fraction.ofRatio, hz, reduce_eq h]
  case real x =>
    simp only [spelling, Numeral.read, readReal, if_true, x.ofDecimal_spelling]
    rfl

theorem read?_text {v : Number} (h : v.WellFormed) (hw : v.Writable) :
    read? v.text = .ok (some v) := by
  have hs : ofString? v.text = some v.spelling := by
    rw [ofString?, toList_text h, ofChars?_chars v.spelling_plain]
  rw [read?, hs]
  exact congrArg (Except.map some) (read_spelling h hw)

end Number

end TermReduction
