import TermReduction.Error

/-!
The operations on fractions that refuse a zero denominator.
-/

namespace TermReduction.Fraction

-- The fraction `n / d` in lowest terms; refused if `d` is zero.
def ofRatio (n d : Int) : Except Error Fraction :=
  if d = 0 then .error (.ofOperand (.integer 0) .differentFrom 0) else .ok (reduce n d)

-- The sum, refused if either denominator is zero.
def sum (q r : Fraction) : Except Error Fraction :=
  ofRatio (q.numerator * r.denominator + q.denominator * r.numerator) (q.denominator * r.denominator)

-- The product, refused if either denominator is zero.
def product (q r : Fraction) : Except Error Fraction :=
  ofRatio (q.numerator * r.numerator) (q.denominator * r.denominator)

theorem ofRatio_reduced {n d : Int} {q : Fraction} (h : ofRatio n d = .ok q) : q.Reduced := by
  unfold ofRatio at h
  split at h
  case isTrue     => contradiction
  case isFalse hd => exact Except.ok.inj h ▸ .reduce n hd

theorem sum_eq_ok {q r : Fraction} (h : q.denominator * r.denominator ≠ 0) :
    q.sum r = .ok (q + r) :=
  if_neg h

theorem product_eq_ok {q r : Fraction} (h : q.denominator * r.denominator ≠ 0) :
    q.product r = .ok (q * r) :=
  if_neg h

end TermReduction.Fraction
