import TermReduction.Logarithm
import TermReduction.Proofs.Binary64.Integer
import TermReduction.Proofs.Except
import TermReduction.Proofs.Truncation

/-!
Powers of ten of decimals. Only what is left of the exponent behind its integer part goes through binary
floating point, and the integer part moves the point of what comes out, whatever that is.
-/

namespace TermReduction.Decimal

variable {power : Binary64 → Decimal} {x z : Decimal} {n : Int}

-- What is left of a decimal behind its integer part.
def rest (x : Decimal) : Decimal :=
  x - ofInt x.truncate

-- Ten to the power `x`, where `power` gives the powers of binary numbers.
def antilogThrough (power : Binary64 → Decimal) (x : Decimal) : Except Error Decimal := do
  (← powerOfTen x.truncate).product (power (.ofDecimal x.rest))

theorem antilog_eq_antilogThrough [Binary64.Elementary] (x : Decimal) :
    x.antilog = antilogThrough (·.exp10.shortest) x :=
  rfl

theorem toRat_rest (x : Decimal) : x.rest.toRat = x.toRat - towardZero x.toRat := by
  rw [rest, toRat_sub, toRat_ofInt, truncate_eq_towardZero]

theorem abs_rest_lt_one (x : Decimal) : |x.rest.toRat| < 1 := by
  rw [toRat_rest]
  exact abs_sub_towardZero_lt x.toRat

theorem sign_rest (x : Decimal) :
    x.rest.toRat = 0 ∨ SignType.sign x.rest.toRat = SignType.sign x.toRat := by
  rw [toRat_rest]
  exact sign_sub_towardZero x.toRat

theorem truncate_add (hz : z.toRat = x.toRat + n) (h : SameSide x.toRat n) :
    z.truncate = x.truncate + n := by
  rw [truncate_eq_towardZero, truncate_eq_towardZero, hz, towardZero_add_intCast h]

-- An integer that is added does not change what is left.
theorem toRat_rest_add (hz : z.toRat = x.toRat + n) (h : SameSide x.toRat n) :
    z.rest.toRat = x.rest.toRat := by
  rw [toRat_rest, toRat_rest, hz, towardZero_add_intCast h, Int.cast_add, add_sub_add_right_eq_sub]

theorem scaled_one_mul (k : Int) (y : Decimal) : scaled 1 k * y = y.shift k := by
  show scaled (1 * y.coefficient) (k + y.exponent) = scaled y.coefficient (y.exponent + k)
  rw [Int.one_mul, Int.add_comm]

-- The exponents of the power of ten and of the result are exponents that decimals have.
structure AntilogInRange (power : Binary64 → Decimal) (x : Decimal) : Prop where
  magnitude : (scaled 1 x.truncate).InRange
  result    : ((power (.ofDecimal x.rest)).shift x.truncate).InRange

theorem AntilogInRange.eq (h : AntilogInRange power x) :
    antilogThrough power x = .ok ((power (.ofDecimal x.rest)).shift x.truncate) := by
  rw [antilogThrough, powerOfTen_eq h.magnitude, Except.ok_bind, product, scaled_one_mul,
    fit_of_inRange h.result]

theorem antilog_shifts [Binary64.Elementary] :
    (∀ x : Decimal, x.antilog = antilogThrough (·.exp10.shortest) x ∧
      x.rest.toRat = x.toRat - towardZero x.toRat ∧ |x.rest.toRat| < 1 ∧
      (x.rest.toRat = 0 ∨ SignType.sign x.rest.toRat = SignType.sign x.toRat)) ∧
    ∀ (power : Binary64 → Decimal) (x z : Decimal) (n : Int),
      z.toRat = x.toRat + n → SameSide x.toRat n → AntilogInRange power x → AntilogInRange power z →
      ∃ y w, antilogThrough power x = .ok y ∧ antilogThrough power z = .ok w ∧
        w.toRat = 10 ^ n * y.toRat := by
  refine ⟨fun x => ⟨antilog_eq_antilogThrough x, toRat_rest x, abs_rest_lt_one x, sign_rest x⟩, ?shift⟩
  case shift =>
    intro power x z n hz hs hx hz'
    refine ⟨_, _, hx.eq, hz'.eq, ?_⟩
    rw [Binary64.ofDecimal_congr (toRat_rest_add hz hs), toRat_shift, toRat_shift, truncate_add hz hs,
      zpow_add₀ (by decide)]
    ring

open scoped Binary64.Rounded

-- Below zero the integer part is cut off upward, so that three less move the point by three places.
theorem antilog_shifts_below_zero :
    (scaled (-325) (-2)).toRat = (scaled (-25) (-2)).toRat + (-3 : Int) ∧
    ∃ y w, (scaled (-25) (-2)).antilog = .ok y ∧ (scaled (-325) (-2)).antilog = .ok w ∧
      w.toRat = 10 ^ (-3 : Int) * y.toRat := by
  have hz : (scaled (-325) (-2)).toRat = (scaled (-25) (-2)).toRat + (-3 : Int) := by
    norm_num [toRat, scaled]
  have hs : SameSide (scaled (-25) (-2)).toRat (-3) :=
    .inr ⟨by norm_num [toRat, scaled], by decide⟩
  have hx : AntilogInRange (·.exp10.shortest) (scaled (-25) (-2)) :=
    ⟨by decide +kernel, by decide +kernel⟩
  have hz' : AntilogInRange (·.exp10.shortest) (scaled (-325) (-2)) :=
    ⟨by decide +kernel, by decide +kernel⟩
  simp only [antilog_eq_antilogThrough]
  exact ⟨hz, antilog_shifts.2 _ _ _ _ hz hs hx hz'⟩

end TermReduction.Decimal
