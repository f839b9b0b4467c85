import TermReduction.Number.Basic

/-!
The canonical text of a number, and the bound on the length of the integers in it: an integer of
more than 4300 digits can be computed with, but is neither read nor written.
-/

namespace TermReduction

-- The greatest number of digits of an integer that is read or written.
def maxDigits : Nat := 4300

-- An integer that is short enough to be written.
def Writable (n : Int) : Prop :=
  n.natAbs < tenTo maxDigits

instance (n : Int) : Decidable (Writable n) :=
  inferInstanceAs (Decidable (_ < _))

def Fraction.Writable (q : Fraction) : Prop :=
  TermReduction.Writable q.numerator ∧ TermReduction.Writable q.denominator

instance (q : Fraction) : Decidable q.Writable :=
  inferInstanceAs (Decidable (_ ∧ _))

namespace Number

def text : Number → String
  | integer n  => toString n
  | rational q => q.text
  | real x     => x.text

-- The bound concerns integers, also within fractions. A real of any length is written.
def Writable : Number → Prop
  | integer n  => TermReduction.Writable n
  | rational q => q.Writable
  | real _     => True

instance : DecidablePred Writable
  | integer n  => inferInstanceAs (Decidable (TermReduction.Writable n))
  | rational q => inferInstanceAs (Decidable q.Writable)
  | real _     => inferInstanceAs (Decidable True)

-- The kind of a number in words.
def kind : Number → String
  | integer _  => "Integer"
  | rational _ => "Rational"
  | real _     => "Real"

end Number

end TermReduction
