import TermReduction.Numeral

/-!
The grammar of spelt numbers, apart from how they are recognised: what may stand where, and the number
that a spelling denotes in positional notation.
-/

namespace TermReduction

-- The number of a run of digits: each digit counts for a power of ten by the number of places behind it.
def positional : List Char → Nat
  | []      => 0
  | d :: ds => (d.toNat - '0'.toNat) * 10 ^ ds.length + positional ds

namespace Numeral

-- An optional minus sign.
inductive Minus : Bool → List Char → Prop
  | none : Minus false []
  | minus : Minus true ['-']

-- An optional sign.
inductive Sign : Bool → List Char → Prop
  | minus {negative s} : Minus negative s → Sign negative s
  | plus : Sign false ['+']

-- Digits before and behind an optional point. Only one of the two runs may be empty, and without a
-- point there is nothing behind it.
inductive Mantissa : List Char → List Char → List Char → Prop
  | whole {whole} : isDigitRun whole → Mantissa whole [] whole
  | pointed {whole fraction} : isDigitRun whole → (∀ c ∈ fraction, c.isDigit) →
    Mantissa whole fraction (whole ++ '.' :: fraction)
  | places {fraction} : isDigitRun fraction → Mantissa [] fraction ('.' :: fraction)

-- An optional exponent.
inductive Exponent : Int → List Char → Prop
  | none : Exponent 0 []
  | marked {c negative s ds} : c = 'e' ∨ c = 'E' → Sign negative s → isDigitRun ds →
    Exponent (applySign negative (positional ds)) (c :: (s ++ ds))

-- The characters spell the number. Those of an integer spell a decimal as well.
inductive Spells : Numeral → List Char → Prop
  | integer {negative s ds} : Sign negative s → isDigitRun ds → Spells (.integer negative ds) (s ++ ds)
  | decimal {negative whole fraction e s m x} :
    Sign negative s → Mantissa whole fraction m → Exponent e x →
    Spells (.decimal negative whole fraction e) (s ++ (m ++ x))
  | ratio {negative s n d} : Minus negative s → isDigitRun n → isDigitRun d →
    Spells (.ratio negative n d) (s ++ (n ++ '/' :: d))

def signed (negative : Bool) (q : Rat) : Rat :=
  if negative then -q else q

-- The number that a spelling denotes.
def value : Numeral → Rat
  | integer negative ds               => signed negative (positional ds)
  | decimal negative whole fraction e =>
    signed negative ((positional whole + positional fraction / 10 ^ fraction.length) * 10 ^ e)
  | ratio negative n d                => signed negative (positional n / positional d)

-- Integers have no more digits than an integer may have, and a decimal that is spelt with an exponent
-- is in range with all its digits down to the last place of a fixed-point number.
def Readable : Numeral → Prop
  | integer _ ds                      => ds.length ≤ maxDigits
  | decimal negative whole fraction e =>
    let x := decimalOf negative (whole ++ fraction) (e - fraction.length)
    e = 0 ∨ x.InRange ∧ (x.coefficient = 0 ∨ x.leadingExponent + Fixed.places < Decimal.precision)
  | ratio _ n d                       => n.length ≤ maxDigits ∧ d.length ≤ maxDigits

instance : (x : Numeral) → Decidable x.Readable
  | integer _ ds   => inferInstanceAs (Decidable (ds.length ≤ maxDigits))
  | decimal _ _ _ _ => inferInstanceAs (Decidable (_ ∨ _ ∧ (_ ∨ _)))
  | ratio _ _ _    => inferInstanceAs (Decidable (_ ∧ _))

end Numeral

end TermReduction
