import TermReduction.Fraction.Chain
import TermReduction.Proofs.Fraction.Value

/-!
Whatever is done to a fraction, it stays in lowest terms, or it is one of the two that come from inverting
zero. On the former all operations are those of rational numbers, and the latter can only be negated and
inverted back to zero.
-/

namespace TermReduction.Fraction

variable {q r : Fraction} {v w : Rat} {n d : Int} {a : Argument} {o : Operation}

-- The refusal of a zero denominator.
def zeroDenominator : Error :=
  .domain (.number (.integer 0)) .differentFrom 0

theorem ofRatio_zero (n : Int) : ofRatio n 0 = .error zeroDenominator := by
  have hw : (Number.integer 0).Writable := tenTo_pos maxDigits
  rw [ofRatio, if_pos rfl, Error.ofOperand, if_pos hw, zeroDenominator]

theorem ofRatio_eq_ok (n : Int) (hd : d ≠ 0) : ofRatio n d = .ok (reduce n d) :=
  if_neg hd

-- A fraction in lowest terms, and the rational number that it is.
structure Denotes (q : Fraction) (v : Rat) : Prop where
  reduced  : q.Reduced
  toRat_eq : q.toRat = v

-- What is left when zero is inverted, and its negative.
inductive Infinite : Fraction → Prop
  | positive : Infinite ⟨1, 0⟩
  | negative : Infinite ⟨-1, 0⟩

theorem Reduced.denotes (h : q.Reduced) : q.Denotes q.toRat :=
  ⟨h, rfl⟩

theorem denotes_reduce (n : Int) (hd : d ≠ 0) : (reduce n d).Denotes (n / d) :=
  ⟨.reduce n hd, toRat_reduce n hd⟩

theorem Reduced.eq_zero (h : q.Reduced) (hn : q.numerator = 0) : q = ⟨0, 1⟩ := by
  refine h.eq_of_toRat_eq (.ofInt 0) ?_
  rw [h.toRat_eq_zero.2 hn]
  exact (toRat_ofInt 0).symm

theorem Infinite.denominator_eq : q.Infinite → q.denominator = 0
  | .positive | .negative => rfl

theorem Infinite.not_reduced (h : q.Infinite) : ¬q.Reduced :=
  fun hr => hr.ne_zero h.denominator_eq

namespace Argument

-- An integer, or a fraction that can be made.
def IsMade : Argument → Prop
  | integer _ => True
  | ratio _ d => d ≠ 0

def toRat : Argument → Rat
  | integer n => n
  | ratio n d => n / d

theorem IsMade.exists_make : {a : Argument} → a.IsMade → ∃ r, a.make = .ok r ∧ r.Denotes a.toRat
  | integer n, _ => ⟨_, rfl, .ofInt n, toRat_ofInt n⟩
  | ratio n _, h => ⟨_, ofRatio_eq_ok n h, denotes_reduce n h⟩

theorem make_eq_error (h : ¬a.IsMade) : a.make = .error zeroDenominator := by
  cases a
  case integer   => exact absurd trivial h
  case ratio n d => exact not_not.1 h ▸ ofRatio_zero n

end Argument

namespace Denotes

theorem negate (h : q.Denotes v) : (-q).Denotes (-v) :=
  ⟨h.reduced.neg, h.toRat_eq ▸ toRat_neg q⟩

theorem invert (h : q.Denotes v) (hv : v ≠ 0) : q.inv.Denotes v⁻¹ := by
  obtain ⟨hq, rfl⟩ := h
  exact ⟨hq.inv (mt hq.toRat_eq_zero.2 hv), toRat_inv q⟩

theorem sum (hq : q.Denotes v) (hr : r.Denotes w) : ∃ s, q.sum r = .ok s ∧ s.Denotes (v + w) := by
  obtain ⟨hq, rfl⟩ := hq
  obtain ⟨hr, rfl⟩ := hr
  exact ⟨q + r, sum_eq_ok (Int.mul_ne_zero hq.ne_zero hr.ne_zero), hq.add hr, toRat_add hq.ne_zero hr.ne_zero⟩

theorem product (hq : q.Denotes v) (hr : r.Denotes w) : ∃ s, q.product r = .ok s ∧ s.Denotes (v * w) := by
  obtain ⟨hq, rfl⟩ := hq
  obtain ⟨hr, rfl⟩ := hr
  exact ⟨q * r, product_eq_ok (Int.mul_ne_zero hq.ne_zero hr.ne_zero), hq.mul hr, toRat_mul hq.ne_zero hr.ne_zero⟩

theorem apply_add (h : q.Denotes v) (ha : a.IsMade) :
    ∃ r, (Operation.add a).apply q = .ok r ∧ r.Denotes (v + a.toRat) := by
  obtain ⟨f, hf, hd⟩ := ha.exists_make
  rw [Operation.apply, hf, Except.ok_bind]
  exact h.sum hd

theorem apply_multiply (h : q.Denotes v) (ha : a.IsMade) :
    ∃ r, (Operation.multiply a).apply q = .ok r ∧ r.Denotes (v * a.toRat) := by
  obtain ⟨f, hf, hd⟩ := ha.exists_make
  rw [Operation.apply, hf, Except.ok_bind]
  exact h.product hd

end Denotes

namespace Infinite

theorem neg : q.Infinite → (-q).Infinite
  | .positive => .negative
  | .negative => .positive

theorem inv : q.Infinite → q.inv = ⟨0, 1⟩
  | .positive | .negative => rfl

theorem sum (h : q.Infinite) (r : Fraction) : q.sum r = .error zeroDenominator := by
  rw [Fraction.sum, h.denominator_eq, Int.zero_mul, Int.zero_mul]
  exact ofRatio_zero _

theorem product (h : q.Infinite) (r : Fraction) : q.product r = .error zeroDenominator := by
  rw [Fraction.product, h.denominator_eq, Int.zero_mul]
  exact ofRatio_zero _

theorem apply_add (h : q.Infinite) (a : Argument) : (Operation.add a).apply q = .error zeroDenominator := by
  by_cases ha : a.IsMade
  case pos =>
    obtain ⟨r, hr, _⟩ := ha.exists_make
    rw [Operation.apply, hr, Except.ok_bind, h.sum]
  case neg => rw [Operation.apply, Argument.make_eq_error ha, Except.error_bind]

theorem apply_multiply (h : q.Infinite) (a : Argument) :
    (Operation.multiply a).apply q = .error zeroDenominator := by
  by_cases ha : a.IsMade
  case pos =>
    obtain ⟨r, hr, _⟩ := ha.exists_make
    rw [Operation.apply, hr, Except.ok_bind, h.product]
  case neg => rw [Operation.apply, Argument.make_eq_error ha, Except.error_bind]

end Infinite

-- All that an operation on one of these fractions can lead to.
inductive Leads : Fraction → Operation → Fraction → Prop
  | reduced {q r : Fraction} {o} : r.Reduced → Leads q o r
  | inverse : Leads ⟨0, 1⟩ .invert ⟨1, 0⟩
  | negative {q : Fraction} : q.Infinite → Leads q .negate (-q)

theorem leads_of_apply (hq : q.Reduced ∨ q.Infinite) (h : o.apply q = .ok r) : Leads q o r := by
  cases o
  case negate =>
    cases h
    cases hq
    case inl hq => exact .reduced hq.neg
    case inr hq => exact .negative hq
  case invert =>
    cases h
    cases hq
    case inl hq =>
      by_cases hn : q.numerator = 0
      case pos => exact hq.eq_zero hn ▸ .inverse
      case neg => exact .reduced (hq.inv hn)
    case inr hq => exact .reduced (hq.inv ▸ .ofInt 0)
  case add a      =>
    obtain ⟨_, _, h⟩ := Except.bind_eq_ok.1 h
    exact .reduced (ofRatio_reduced h)
  case multiply a =>
    obtain ⟨_, _, h⟩ := Except.bind_eq_ok.1 h
    exact .reduced (ofRatio_reduced h)

theorem Leads.reduced_or_infinite : Leads q o r → r.Reduced ∨ r.Infinite
  | .reduced h  => .inl h
  | .inverse    => .inr .positive
  | .negative h => .inr h.neg

theorem Leads.of_infinite (h : Leads q o r) (hr : r.Infinite) :
    (o = .invert ∧ q = ⟨0, 1⟩ ∧ r = ⟨1, 0⟩) ∨ (o = .negate ∧ q.Infinite ∧ r = -q) := by
  cases h
  case reduced hq  => exact absurd hq hr.not_reduced
  case inverse     => exact .inl ⟨rfl, rfl, rfl⟩
  case negative hq => exact .inr ⟨rfl, hq, rfl⟩

theorem reduced_or_infinite_perform (hq : q.Reduced ∨ q.Infinite) (o : Operation) :
    (q.perform o).Reduced ∨ (q.perform o).Infinite := by
  unfold perform
  split
  case h_1 r h => exact (leads_of_apply hq h).reduced_or_infinite
  case h_2     => exact hq

theorem reduced_or_infinite_chain (hq : q.Reduced ∨ q.Infinite) (os : List Operation) :
    (q.chain os).Reduced ∨ (q.chain os).Infinite := by
  induction os generalizing q
  case nil          => exact hq
  case cons o os ih => exact ih (reduced_or_infinite_perform hq o)

-- Every chain that starts from a fraction that can be made stays with fractions in lowest terms and the two
-- others.
theorem chain_reduced_or_infinite (n : Int) (hd : d ≠ 0) : ∃ q₀, ofRatio n d = .ok q₀ ∧ q₀.Denotes (n / d) ∧
    ∀ os : List Operation, let q := q₀.chain os
      (q.Reduced ∨ q.Infinite) ∧
      (∀ (o : Operation) (r : Fraction), o.apply q = .ok r → r.Infinite →
        (o = .invert ∧ q = ⟨0, 1⟩ ∧ r = ⟨1, 0⟩) ∨ (o = .negate ∧ q.Infinite ∧ r = -q)) ∧
      (q.Reduced →
        (∃ r, Operation.negate.apply q = .ok r ∧ r.Denotes (-q.toRat)) ∧
        (∀ a, a.IsMade → ∃ r, (Operation.add a).apply q = .ok r ∧ r.Denotes (q.toRat + a.toRat)) ∧
        (∀ a, a.IsMade → ∃ r, (Operation.multiply a).apply q = .ok r ∧ r.Denotes (q.toRat * a.toRat)) ∧
        (q.toRat ≠ 0 → ∃ r, Operation.invert.apply q = .ok r ∧ r.Denotes q.toRat⁻¹) ∧
        ∀ r : Fraction, r.Reduced → (q = r ↔ q.toRat = r.toRat)) ∧
      (q.Infinite →
        (∀ a, (Operation.add a).apply q = .error zeroDenominator) ∧
        (∀ a, (Operation.multiply a).apply q = .error zeroDenominator) ∧
        Operation.invert.apply q = .ok ⟨0, 1⟩) := by
  refine ⟨_, ofRatio_eq_ok n hd, denotes_reduce n hd, ?_⟩
  intro os q
  have hq : q.Reduced ∨ q.Infinite := reduced_or_infinite_chain (.inl (denotes_reduce n hd).reduced) os
  refine ⟨hq, fun o r h => (leads_of_apply hq h).of_infinite, fun hr => ?reduced, fun hi => ?infinite⟩
  case reduced  =>
    have hv := hr.denotes
    exact ⟨⟨_, rfl, hv.negate⟩, fun a => hv.apply_add, fun a => hv.apply_multiply,
      fun h₀ => ⟨_, rfl, hv.invert h₀⟩, fun r hr' => ⟨fun h => h ▸ rfl, hr.eq_of_toRat_eq hr'⟩⟩
  case infinite => exact ⟨hi.apply_add, hi.apply_multiply, congrArg Except.ok hi.inv⟩

-- A half is taken away from itself, and what is left is inverted and negated. Multiplying it by zero fails.
theorem chain_reduced_or_infinite_zero :
    let q := chain ⟨1, 2⟩ [.add (.ratio 2 (-4)), .invert, .negate, .multiply (.integer 0)]
    ofRatio (-3) (-6) = .ok ⟨1, 2⟩ ∧
    (∃ r, (Operation.add (.ratio 5 (-6))).apply ⟨1, 2⟩ = .ok r ∧ r.Denotes (-1 / 3)) ∧
    q = ⟨-1, 0⟩ ∧ (Operation.add (.integer 7)).apply q = .error zeroDenominator ∧
    Operation.invert.apply q = .ok ⟨0, 1⟩ := by
  intro q
  have hq₀ : ofRatio (-3) (-6) = .ok ⟨1, 2⟩ := by decide +kernel
  have hq : q = ⟨-1, 0⟩ := by decide +kernel
  obtain ⟨q₀, h₀, hd, h⟩ := chain_reduced_or_infinite (-3) (d := -6) (by decide)
  cases hq₀.symm.trans h₀
  obtain ⟨-, hadd, -⟩ := (h []).2.2.1 hd.reduced
  obtain ⟨hsum, -, hinvert⟩ := (h _).2.2.2 (show q.Infinite from hq ▸ .negative)
  obtain ⟨r, hr, hv⟩ := hadd (.ratio 5 (-6)) (by decide : (-6 : Int) ≠ 0)
  have hs : (-1 / 3 : Rat) = Fraction.toRat ⟨1, 2⟩ + Argument.toRat (.ratio 5 (-6)) := by decide +kernel
  exact ⟨hq₀, ⟨r, hr, hs ▸ hv⟩, hq, hsum _, hinvert⟩

end TermReduction.Fraction
