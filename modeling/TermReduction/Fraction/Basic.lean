/-!
Fractions as pairs of integers. A fraction in lowest terms has a positive denominator that shares no
divisor with the numerator. Inverting zero gives `1 / 0`, which is kept as it is.
-/

namespace TermReduction

structure Fraction where
  numerator : Int
  denominator : Int
deriving DecidableEq

namespace Fraction

structure Reduced (q : Fraction) : Prop where
  pos     : 0 < q.denominator
  coprime : q.numerator.gcd q.denominator = 1

instance : DecidablePred Reduced := fun q =>
  decidable_of_iff (0 < q.denominator ∧ q.numerator.gcd q.denominator = 1)
    ⟨fun ⟨pos, coprime⟩ => ⟨pos, coprime⟩, fun ⟨pos, coprime⟩ => ⟨pos, coprime⟩⟩

-- The number that a fraction denotes; zero if its denominator is zero.
def toRat (q : Fraction) : Rat :=
  q.numerator / q.denominator

def ofInt (n : Int) : Fraction :=
  ⟨n, 1⟩

-- Euclid's algorithm: a remainder takes the place of the divisor for as long as one is left.
def euclid (a b : Nat) : Nat :=
  if b = 0 then a else euclid b (a % b)
termination_by b
decreasing_by exact Nat.mod_lt a (Nat.pos_of_ne_zero ‹_›)

-- The greatest common divisor, which does not depend on the signs.
def gcd (m n : Int) : Nat :=
  euclid m.natAbs n.natAbs

-- The fraction `n / d` in lowest terms, for `d` not zero.
def reduce (n d : Int) : Fraction :=
  ⟨d.sign * n / (gcd n d : Int), d.sign * d / (gcd n d : Int)⟩

def neg (q : Fraction) : Fraction :=
  ⟨-q.numerator, q.denominator⟩

-- Exchanges numerator and denominator; the sign stays with the numerator.
def inv (q : Fraction) : Fraction :=
  if q.numerator < 0 then ⟨-q.denominator, -q.numerator⟩ else ⟨q.denominator, q.numerator⟩

def add (q r : Fraction) : Fraction :=
  reduce (q.numerator * r.denominator + q.denominator * r.numerator) (q.denominator * r.denominator)

def mul (q r : Fraction) : Fraction :=
  reduce (q.numerator * r.numerator) (q.denominator * r.denominator)

instance : Neg Fraction := ⟨neg⟩
instance : Add Fraction := ⟨add⟩
instance : Sub Fraction := ⟨fun q r => q + -r⟩
instance : Mul Fraction := ⟨mul⟩

-- The integer part, cut off toward zero.
def truncate (q : Fraction) : Int :=
  q.numerator.tdiv q.denominator

def text (q : Fraction) : String :=
  toString q.numerator ++ "/" ++ toString q.denominator

-- A pass of the loop keeps the greatest common divisor, and the last one leaves it.
theorem euclid_eq (a b : Nat) : euclid a b = a.gcd b := by
  fun_induction euclid a b
  case case1 a        => exact a.gcd_zero_right.symm
  case case2 a b _ ih => rw [ih, Nat.gcd_comm b, ← Nat.gcd_rec, Nat.gcd_comm]

theorem gcd_eq (m n : Int) : gcd m n = m.gcd n :=
  euclid_eq m.natAbs n.natAbs

theorem reduce_eq_gcd (n d : Int) :
    reduce n d = ⟨d.sign * n / (n.gcd d : Int), d.sign * d / (n.gcd d : Int)⟩ := by
  rw [reduce, gcd_eq]

theorem Reduced.ofInt (n : Int) : (ofInt n).Reduced where
  pos     := Int.one_pos
  coprime := by simp [Fraction.ofInt]

theorem Reduced.neg {q : Fraction} (h : q.Reduced) : q.neg.Reduced where
  pos     := h.pos
  coprime := by simpa [Fraction.neg] using h.coprime

theorem Reduced.inv {q : Fraction} (h : q.Reduced) (hz : q.numerator ≠ 0) : q.inv.Reduced := by
  have hc := h.coprime
  rw [Int.gcd_comm] at hc
  by_cases hn : q.numerator < 0
  · exact ⟨by simp [Fraction.inv, hn], by simpa [Fraction.inv, hn] using hc⟩
  · exact ⟨by simp [Fraction.inv, hn]; omega, by simpa [Fraction.inv, hn] using hc⟩

theorem Reduced.reduce (n : Int) {d : Int} (h : d ≠ 0) : (reduce n d).Reduced := by
  have hg : 0 < n.gcd d := Int.gcd_pos_of_ne_zero_right n h
  have hd : d.sign * d = d.natAbs := Int.sign_mul_self d
  have hn : (d.sign * n).gcd (d.sign * d) = n.gcd d := by
    rw [Int.gcd_mul_left, Int.natAbs_sign_of_ne_zero h, Nat.one_mul]
  rw [reduce_eq_gcd]
  constructor
  · simp only [hd]
    have : (n.gcd d : Int) ∣ d.natAbs := Int.natCast_dvd_natCast.2 (Int.gcd_dvd_natAbs_right n d)
    have h₁ : (0 : Int) < d.natAbs := by omega
    exact Int.ediv_pos_of_pos_of_dvd h₁ (by omega) this
  · simp only
    rw [← hn]
    exact Int.gcd_ediv_gcd_ediv_gcd (by omega)

end Fraction

end TermReduction
