import TermReduction.Fixed.Basic
import TermReduction.Fraction.Basic

/-!
Numbers of three kinds: integers, fractions in lowest terms and fixed-point reals. Two numbers are
equal when they are of one kind and have one value. Every number has an exact value `toRat`.
-/

namespace TermReduction

inductive Number
  | integer (n : Int)
  | rational (q : Fraction)
  | real (x : Fixed)
deriving DecidableEq

namespace Number

-- A rational is in lowest terms. Integers and reals are always well formed.
def WellFormed : Number → Prop
  | rational q => q.Reduced
  | _          => True

instance : DecidablePred WellFormed
  | integer _  => inferInstanceAs (Decidable True)
  | rational q => inferInstanceAs (Decidable q.Reduced)
  | real _     => inferInstanceAs (Decidable True)

def toRat : Number → Rat
  | integer n  => n
  | rational q => q.toRat
  | real x     => x.toRat

-- A fraction over one is an integer.
def ofFraction (q : Fraction) : Number :=
  if q.denominator = 1 then integer q.numerator else rational q

-- A real without decimal places is an integer.
def ofFixed (x : Fixed) : Number :=
  if x.IsWhole then integer x.truncate else real x

def ofDecimal (x : Decimal) : Number :=
  ofFixed (.ofDecimal x)

-- The integer part, cut off toward zero.
def toInt : Number → Int
  | integer n  => n
  | rational q => q.truncate
  | real x     => x.truncate

def toFraction : Number → Fraction
  | integer n  => .ofInt n
  | rational q => q
  | real x     => .reduce x.units Fixed.unitsPerOne

-- The fixed-point number nearest to the value.
def toFixed : Number → Fixed
  | integer n  => .ofInt n
  | rational q => .ofRatio q.numerator q.denominator
  | real x     => x

def IsZero : Number → Prop
  | integer n  => n = 0
  | rational q => q.numerator = 0
  | real x     => x.units = 0

def IsPositive : Number → Prop
  | integer n  => 0 < n
  | rational q => 0 < q.numerator
  | real x     => 0 < x.units

instance : DecidablePred IsZero
  | integer n  => inferInstanceAs (Decidable (n = 0))
  | rational q => inferInstanceAs (Decidable (q.numerator = 0))
  | real x     => inferInstanceAs (Decidable (x.units = 0))

instance : DecidablePred IsPositive
  | integer n  => inferInstanceAs (Decidable (0 < n))
  | rational q => inferInstanceAs (Decidable (0 < q.numerator))
  | real x     => inferInstanceAs (Decidable (0 < x.units))

-- Arithmetic on two numbers is in fixed point as soon as one of them is real.
def isReal : Number → Bool
  | real _ => true
  | _      => false

end Number

end TermReduction
