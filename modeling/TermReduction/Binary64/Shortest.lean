import TermReduction.Binary64.Basic
import TermReduction.Decimal.Text

/-!
The decimal with the fewest digits that is read back as the same binary number, and the text made of
its digits.
-/

namespace TermReduction.Binary64

-- The power of ten of the leading digit of `n / d`, for positive `n` and `d`.
def floorLog10 (n d : Nat) : Int :=
  let k : Int := digitCount n - digitCount d
  if d * tenTo k.toNat ≤ n * tenTo (-k).toNat then k else k - 1

-- The multiple of `10 ^ e` that reads back as `x` and is nearest to `n / d`, the number that `x`
-- is. Only the two neighbours of `n / d` can be it.
def readBackAt? (x : Binary64) (n d : Nat) (e : Int) : Option Decimal :=
  let n := n * tenTo (-e).toNat
  let d := d * tenTo e.toNat
  let below := Decimal.scaled (n / d) e
  let above := Decimal.scaled (n / d + 1) e
  let nearest := Decimal.scaled (roundHalfEven n d) e
  [nearest, below, above].find? (ofDecimal · = x)

-- The number of digits that always suffice.
def mostDigits : Nat := 17

-- The first hit when the grid is refined digit by digit, from the leading digit at `10 ^ e` on.
def refine (x : Binary64) (n d : Nat) (e : Int) : Nat → Decimal
  | 0 => .scaled (roundHalfEven (n * tenTo (-e).toNat) (d * tenTo e.toNat)) e
  | t + 1 => (readBackAt? x n d e).getD (refine x n d (e - 1) t)

-- The decimal of fewest digits that reads back as `x`; of several, the nearest.
def shortest (x : Binary64) : Decimal :=
  if x.significand = 0 then .ofInt 0
  else
    let n := x.significand.natAbs * twoTo x.exponent.toNat
    let d := twoTo (-x.exponent).toNat
    let y := refine (if x.significand < 0 then -x else x) n d (floorLog10 n d) mostDigits
    if x.significand < 0 then -y else y

-- Numbers from 10⁻⁴ up to below 10¹⁶ are written positionally.
def isPositional (e : Int) : Bool :=
  -4 ≤ e ∧ e < 16

-- Exponents have a sign and at least two digits.
def exponentChars (e : Int) : List Char :=
  'e' :: (if e < 0 then '-' else '+') :: zeroPadded 2 (digits e.natAbs)

-- The shortest digits, positionally with a point or with one digit before the point and an
-- exponent.
def text (x : Binary64) : String :=
  let y := x.shortest
  if y.coefficient = 0 ∨ isPositional y.leadingExponent then y.pointed
  else
    match Decimal.dropTrailingZeros (digits y.coefficient.natAbs) with
    | [] => y.pointed
    | c :: cs =>
      String.ofList <| y.signChars ++ c :: (if cs = [] then [] else '.' :: cs)
        ++ exponentChars y.leadingExponent

end TermReduction.Binary64
