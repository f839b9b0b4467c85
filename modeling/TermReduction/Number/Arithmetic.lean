import TermReduction.Logarithm

/-!
Arithmetic on numbers of mixed kinds. It is exact on integers and fractions, and rounds once to fixed
point as soon as a real takes part. A result that is an integer is of the integer kind.
-/

namespace TermReduction.Number

variable [Binary64.Elementary] (v w : Number)

-- The negative of a real stays real, also where it is a whole number.
def neg : Number → Except Error Number
  | integer n  => .ok (integer (-n))
  | rational q => .ok (rational (-q))
  | real x     => x.negate.map real

-- The number nearest to `x` that is an integer or real.
def round (x : Decimal) : Except Error Number := do
  return ofFixed (← Fixed.round x)

-- Applies the operation of the common kind of two numbers. Reals have fixed places, so their sums and
-- products stay in the range of decimals and are not checked.
def combine (onInt : Int → Int → Int) (onFraction : Fraction → Fraction → Fraction)
    (onDecimal : Decimal → Decimal → Decimal) : Number → Number → Number
  | integer m, integer n => integer (onInt m n)
  | v, w =>
    if v.isReal || w.isReal then ofDecimal (onDecimal v.toFixed.toDecimal w.toFixed.toDecimal)
    else ofFraction (onFraction v.toFraction w.toFraction)

def add : Number :=
  combine (· + ·) (· + ·) (· + ·) v w

def sub : Number :=
  combine (· - ·) (· - ·) (· - ·) v w

def mul : Number :=
  combine (· * ·) (· * ·) (· * ·) v w

def ensureNonZero : Except Error Unit :=
  if v.IsZero then .error (.ofOperand v .differentFrom 0) else .ok ()

def ensurePositive : Except Error Unit :=
  if v.IsPositive then .ok () else .error (.ofOperand v .greaterThan 0)

-- The value in fixed point of a number that is positive, also after the rounding.
def positiveFixed : Except Error Fixed := do
  v.ensurePositive
  if v.toFixed.units = 0 then .error (.ofOperand v .greaterThan 0) else .ok v.toFixed

def div : Except Error Number := do
  w.ensureNonZero
  if v.isReal || w.isReal then
    return ofFixed (← Fixed.quotient v.toFixed.toDecimal w.toFixed.toDecimal)
  else
    return ofFraction (v.toFraction * w.toFraction.inv)

def inv : Except Error Number := do
  v.ensureNonZero
  if v.isReal then
    return ofFixed (← Fixed.quotient (.ofInt 1) v.toFixed.toDecimal)
  else
    return ofFraction v.toFraction.inv

def sqrt : Except Error Number := do
  if v.toFixed.units < 0 then .error (.ofOperand v .atLeast 0)
  else return ofFixed (← Fixed.sqrt v.toFixed.toDecimal)

-- A power of an integer or a fraction to an integer is computed exactly and rounded at most once;
-- all others go through logarithms.
def pow (base exponent : Number) : Except Error Number := do
  base.ensurePositive
  exponent.ensurePositive
  match base, exponent with
  | integer n, integer k => return integer (power n.toNat k.toNat)
  | rational q, integer k =>
    return ofFixed (.ofRatio (power q.numerator.toNat k.toNat) (power q.denominator.toNat k.toNat))
  | _, _ =>
    let x ← base.positiveFixed
    round (← Decimal.power x.toDecimal exponent.toFixed.toDecimal)

def exp : Except Error Number := do
  v.ensurePositive
  round (← Decimal.exp v.toFixed.toDecimal)

def ln : Except Error Number := do
  let x ← v.positiveFixed
  return ofFixed (← Decimal.ln x.toDecimal)

-- The logarithm to a base other than one.
def log (base : Number) : Except Error Number := do
  let x ← v.positiveFixed
  let b ← base.positiveFixed
  if b = .one then .error (.ofOperand base .differentFrom 1)
  else return ofFixed (← Decimal.log x.toDecimal b.toDecimal)

end TermReduction.Number
