import TermReduction.Decimal.Text

/-!
Fixed-point numbers: whole multiples of 10⁻¹⁵. Every number is rounded to them in the same way, to
the nearest multiple with halves away from zero.
-/

namespace TermReduction

-- A number of units of 10⁻¹⁵.
structure Fixed where
  units : Int
deriving DecidableEq

namespace Fixed

-- The number of decimal places.
def places : Nat := 15

-- The number of units in one.
def unitsPerOne : Nat := 1000000000000000

theorem unitsPerOne_eq : unitsPerOne = tenTo places :=
  rfl

def toRat (x : Fixed) : Rat :=
  x.units / unitsPerOne

def ofInt (n : Int) : Fixed :=
  ⟨n * unitsPerOne⟩

def zero : Fixed := ⟨0⟩

-- The number nearest to `n / d`; zero if `d` is zero.
def ofRatio (n d : Int) : Fixed :=
  ⟨roundHalfAway (n * unitsPerOne) d⟩

-- The number nearest to `x`.
def ofDecimal (x : Decimal) : Fixed :=
  let e := x.exponent + places
  if 0 ≤ e then ⟨scaleUp x.coefficient e.toNat⟩ else ⟨roundShift x.coefficient (-e).toNat⟩

def toDecimal (x : Fixed) : Decimal :=
  .scaled x.units (-places)

-- The number nearest to the quotient `x / y`; zero if `y` is zero.
def ofQuotient (x y : Decimal) : Fixed :=
  let e := x.exponent - y.exponent
  if x.coefficient = 0 then zero
  else ofRatio (x.coefficient * tenTo e.toNat) (y.coefficient * tenTo (-e).toNat)

def one : Fixed := ofInt 1

-- The integer part, cut off toward zero.
def truncate (x : Fixed) : Int :=
  x.units.tdiv unitsPerOne

def IsWhole (x : Fixed) : Prop :=
  x.units % unitsPerOne = 0

instance (x : Fixed) : Decidable x.IsWhole :=
  inferInstanceAs (Decidable (_ = _))

-- The number of significant digits that survive a negation.
def negationPrecision : Nat := 28

-- The negative of `x`, rounded to `negationPrecision` significant digits with halves to the even
-- neighbour.
def neg (x : Fixed) : Fixed :=
  let k := digitCount x.units.natAbs - negationPrecision
  ⟨-x.units.sign * (roundHalfEven x.units.natAbs (tenTo k) * tenTo k : Nat)⟩

instance : Neg Fixed := ⟨neg⟩

def text (x : Fixed) : String :=
  x.toDecimal.pointed

@[simp] theorem ofInt_inj {m n : Int} : ofInt m = ofInt n ↔ m = n := by
  simp only [ofInt, unitsPerOne, mk.injEq]
  omega

theorem ofInt_isWhole (n : Int) : (ofInt n).IsWhole := by
  simp [IsWhole, ofInt]

theorem truncate_ofInt (n : Int) : (ofInt n).truncate = n := by
  simp [truncate, ofInt, unitsPerOne]

end Fixed

end TermReduction
