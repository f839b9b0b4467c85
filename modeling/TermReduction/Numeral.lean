import TermReduction.Fixed.Checked
import TermReduction.Fraction.Checked

/-!
Numbers as they are spelt: integers, decimals and ratios of integers. Reading a spelling finds out its
form first and its number after that.
-/

namespace TermReduction

-- The spelling of a number, split into its runs of digits.
inductive Numeral
  | integer (negative : Bool) (digits : List Char)
  | decimal (negative : Bool) (whole fraction : List Char) (exponent : Int)
  | ratio (negative : Bool) (numerator denominator : List Char)
deriving DecidableEq

namespace Numeral

-- A run of digits has at least one.
def isDigitRun (cs : List Char) : Bool :=
  cs ≠ [] && cs.all Char.isDigit

def digitsValue (ds : List Char) : Nat :=
  Nat.ofDigitChars 10 ds 0

def applySign (negative : Bool) (n : Nat) : Int :=
  if negative then -n else n

-- An optional sign and what follows it.
def splitSign : List Char → Bool × List Char
  | '-' :: cs => (true, cs)
  | '+' :: cs => (false, cs)
  | cs        => (false, cs)

-- An optional minus sign and what follows it.
def splitMinus : List Char → Bool × List Char
  | '-' :: cs => (true, cs)
  | cs        => (false, cs)

-- The digits after an optional point and what follows them.
def splitFraction : List Char → List Char × List Char
  | '.' :: cs => (cs.takeWhile Char.isDigit, cs.dropWhile Char.isDigit)
  | cs        => ([], cs)

-- An exponent that makes up the whole of the characters. Without one it is zero.
def exponent? : List Char → Option Int
  | [] => some 0
  | c :: cs =>
    let (negative, ds) := splitSign cs
    if (c = 'e' ∨ c = 'E') ∧ isDigitRun ds then some (applySign negative (digitsValue ds)) else none

def integer? (cs : List Char) : Option Numeral :=
  let (negative, ds) := splitSign cs
  if isDigitRun ds then some (integer negative ds) else none

def decimal? (cs : List Char) : Option Numeral :=
  let (negative, cs) := splitSign cs
  let whole := cs.takeWhile Char.isDigit
  let (fraction, rest) := splitFraction (cs.dropWhile Char.isDigit)
  if whole = [] ∧ fraction = [] then none
  else (exponent? rest).map (decimal negative whole fraction)

-- A ratio may have a minus sign in front but no plus sign.
def ratio? (cs : List Char) : Option Numeral :=
  let (negative, cs) := splitMinus cs
  let n := cs.takeWhile Char.isDigit
  match cs.dropWhile Char.isDigit with
  | '/' :: d => if n ≠ [] ∧ isDigitRun d then some (ratio negative n d) else none
  | _        => none

-- The forms are tried in this order, so whole numbers without a point are integers.
def ofChars? (cs : List Char) : Option Numeral :=
  integer? cs <|> decimal? cs <|> ratio? cs

def ofString? (s : String) : Option Numeral :=
  ofChars? s.toList

-- The decimal with the digits `ds`, the last of which stands for `10 ^ e`.
def decimalOf (negative : Bool) (ds : List Char) (e : Int) : Decimal where
  coefficient  := applySign negative (digitsValue ds)
  exponent     := e
  negativeZero := negative && digitsValue ds = 0

-- The decimal that is spelt out, with every digit. A ratio is none.
def toDecimal? : Numeral → Option Decimal
  | integer negative ds               => some (decimalOf negative ds 0)
  | decimal negative whole fraction e => some (decimalOf negative (whole ++ fraction) (e - fraction.length))
  | ratio ..                          => none

-- The number of a run of digits, unless the run is longer than an integer may be.
def readDigits (ds : List Char) : Except Error Nat :=
  if ds.length ≤ maxDigits then .ok (digitsValue ds) else .error .tooManyDigits

def readInteger (negative : Bool) (ds : List Char) : Except Error Int :=
  (readDigits ds).map (applySign negative)

-- The real nearest to a decimal that is spelt with the exponent `e`. Without an exponent no text is
-- long enough to be out of range.
def readReal (x : Decimal) (e : Int) : Except Error Fixed :=
  if e = 0 then .ok (.ofDecimal x)
  else do
    x.ensureInRange
    Fixed.round x

-- The number that is spelt. Only a decimal is rounded.
def read : Numeral → Except Error Number
  | integer negative ds => do
    return .integer (← readInteger negative ds)
  | decimal negative whole fraction e => do
    return .real (← readReal (decimalOf negative (whole ++ fraction) (e - fraction.length)) e)
  | ratio negative n d => do
    let n ← readInteger negative n
    let d ← readDigits d
    return .rational (← Fraction.ofRatio n d)

end Numeral

-- The number that a text spells, if it spells one.
def Number.read? (s : String) : Except Error (Option Number) :=
  match Numeral.ofString? s with
  | none   => .ok none
  | some x => x.read.map some

-- The number that a token spells.
def Number.read (token : String) : Except Error Number :=
  match Numeral.ofString? token with
  | none   => .error (.invalidIdentifier token)
  | some x => x.read

-- The integer that a text spells.
def readInt (s : String) : Except Error Int :=
  match Numeral.integer? s.toList with
  | some (.integer negative ds) => Numeral.readInteger negative ds
  | _                           => .error .notNumber

-- The decimal that a text spells, with any exponent.
def Decimal.ofString? (s : String) : Option Decimal :=
  (Numeral.ofString? s).bind Numeral.toDecimal?

-- The decimal that a text spells, as it is spelt.
def Decimal.read (s : String) : Except Error Decimal :=
  match ofString? s with
  | none   => .error .notDecimal
  | some x => do
    x.ensureInRange
    return x

end TermReduction
