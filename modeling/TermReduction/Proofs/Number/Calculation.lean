import TermReduction.Number.Calculation
import TermReduction.Proofs.Fixed.Value
import TermReduction.Proofs.Number.Reading
import TermReduction.Proofs.Number.WellFormed

/-!
Calculations that start from numbers that were read never leave the well-formed numbers: integers,
fractions in lowest terms and whole multiples of 10⁻¹⁵.
-/

namespace TermReduction

namespace Calculation

variable {v w : Number} {vs : List Number}

theorem toOption_eq_some {x : Except Error Number} : x.toOption = some v ↔ x = .ok v := by
  cases x <;> simp [Except.toOption]

variable [Binary64.Elementary]

theorem Unary.wellFormed_apply {op : Unary} (hv : v.WellFormed) (h : op.apply v = .ok w) :
    w.WellFormed := by
  cases op
  case neg  => exact hv.neg h
  case inv  => exact hv.inv h
  case sqrt => exact Number.wellFormed_of_exists (Number.exists_ofFixed_of_sqrt h)
  case exp  => exact Number.wellFormed_of_exists (Number.exists_ofFixed_of_exp h)
  case ln   => exact Number.wellFormed_of_exists (Number.exists_ofFixed_of_ln h)

theorem Binary.wellFormed_apply {op : Binary} {u : Number} (hv : v.WellFormed) (hw : w.WellFormed)
    (h : op.apply v w = .ok u) : u.WellFormed := by
  cases op
  case add =>
    cases h
    exact hv.add hw
  case sub =>
    cases h
    exact hv.sub hw
  case mul =>
    cases h
    exact hv.mul hw
  case div => exact hv.div hw h
  case pow => exact Number.wellFormed_of_exists (Number.exists_ofFixed_of_pow h)
  case log => exact Number.wellFormed_of_exists (Number.exists_ofFixed_of_log h)

-- What a line does if it has a result.
inductive Line.Yields (vs : List Number) : Line → Number → Prop
  | unary {op i v w} : v ∈ vs → op.apply v = .ok w → Yields vs (.unary op i) w
  | binary {op i j v w u} :
    v ∈ vs → w ∈ vs → op.apply v w = .ok u → Yields vs (.binary op i j) u

theorem Line.yields_of_result? {l : Line} (h : l.result? vs = some w) : l.Yields vs w := by
  cases l <;> simp only [result?, Option.bind_eq_bind, Option.bind_eq_some_iff,
    toOption_eq_some] at h
  case unary =>
    obtain ⟨v, hv, h⟩ := h
    exact .unary (List.mem_of_getElem? hv) h
  case binary =>
    obtain ⟨v, hv, w, hw, h⟩ := h
    exact .binary (List.mem_of_getElem? hv) (List.mem_of_getElem? hw) h

theorem Line.Yields.wellFormed {l : Line} (hvs : ∀ v ∈ vs, v.WellFormed) :
    l.Yields vs w → w.WellFormed
  | .unary hv h     => Unary.wellFormed_apply (hvs _ hv) h
  | .binary hv hw h => Binary.wellFormed_apply (hvs _ hv) (hvs _ hw) h

theorem wellFormed_extend {l : Line} (hvs : ∀ v ∈ vs, v.WellFormed) :
    ∀ v ∈ extend vs l, v.WellFormed := by
  intro v hv
  cases List.mem_append.1 hv
  case inl hv => exact hvs v hv
  case inr hv => exact (Line.yields_of_result? (Option.mem_toList.1 hv)).wellFormed hvs

theorem wellFormed_run (hvs : ∀ v ∈ vs, v.WellFormed) (ls : List Line) :
    ∀ v ∈ run vs ls, v.WellFormed := by
  induction ls generalizing vs
  case nil          => exact hvs
  case cons l ls ih => exact ih (wellFormed_extend hvs)

end Calculation

-- The three kinds of well-formed numbers.
theorem Number.wellFormed_iff {v : Number} : v.WellFormed ↔
    (∃ n, v = integer n) ∨
      (∃ n d : Int, v = rational ⟨n, d⟩ ∧ 0 < d ∧ n.gcd d = 1) ∨
      ∃ (x : Fixed) (n : Int), v = real x ∧ v.toRat = n / 10 ^ 15 := by
  cases v
  case integer n  => simp [WellFormed]
  case rational q =>
    constructor
    case mp =>
      intro h
      exact .inr (.inl ⟨q.numerator, q.denominator, rfl, h.pos, h.coprime⟩)
    case mpr =>
      rintro (⟨_, h⟩ | ⟨n, d, h, hp, hc⟩ | ⟨_, _, h, _⟩) <;> cases h
      exact ⟨hp, hc⟩
  case real x     =>
    have hx : (Number.real x).toRat = x.units / 10 ^ 15 := by
      rw [toRat, Fixed.toRat]
      norm_num [Fixed.unitsPerOne]
    exact iff_of_true trivial (.inr (.inr ⟨x, x.units, rfl, hx⟩))

namespace Calculation

-- Whatever is calculated from numbers that were read, in any order and whether or not operations fail,
-- the numbers are well formed. Two fractions among them that have one value are one fraction.
theorem run_closed [Binary64.Elementary] {vs : List Number}
    (hvs : ∀ v ∈ vs, ∃ s, Number.read? s = .ok (some v)) (ls : List Line) :
    (∀ v ∈ run vs ls,
      (∃ n, v = .integer n) ∨
        (∃ n d : Int, v = .rational ⟨n, d⟩ ∧ 0 < d ∧ n.gcd d = 1) ∨
        ∃ (x : Fixed) (n : Int), v = .real x ∧ v.toRat = n / 10 ^ 15) ∧
      ∀ q r, .rational q ∈ run vs ls → .rational r ∈ run vs ls → q.toRat = r.toRat → q = r := by
  have hr : ∀ v ∈ vs, v.WellFormed := by
    intro v hv
    obtain ⟨s, hs⟩ := hvs v hv
    exact Number.wellFormed_of_read (Number.read_eq_ok_iff.2 hs)
  have hw := wellFormed_run hr ls
  refine ⟨?kinds, ?fractions⟩
  case kinds => exact fun v hv => Number.wellFormed_iff.1 (hw v hv)
  case fractions =>
    intro q r hq hr h
    exact Fraction.Reduced.eq_of_toRat_eq (hw _ hq) (hw _ hr) h

open scoped Binary64.Rounded

-- A logarithm of a negative fraction fails and leaves no number; the half over the negative fraction is
-- the only fraction of its value.
theorem run_closed_halves :
    let vs := [.rational ⟨1, 2⟩, .rational ⟨-2, 3⟩, .real ⟨2500000000000000⟩]
    let ls := [.unary .ln 1, .binary .div 0 1, .unary .inv 3, .binary .mul 3 2, .unary .neg 5]
    (∀ v ∈ vs, ∃ s, Number.read? s = .ok (some v)) ∧ (run vs ls).length = 7 ∧
      .rational ⟨-3, 4⟩ ∈ run vs ls ∧ .real ⟨1875000000000000⟩ ∈ run vs ls ∧
      ∀ q, .rational q ∈ run vs ls → q.toRat = -3 / 4 → q = ⟨-3, 4⟩ := by
  intro vs ls
  have hvs : ∀ v ∈ vs, ∃ s, Number.read? s = .ok (some v) := by
    intro v hv
    simp only [vs, List.mem_cons, List.not_mem_nil, or_false] at hv
    obtain rfl | rfl | rfl := hv
    · exact ⟨"2/4", by decide +kernel⟩
    · exact ⟨"-2/3", by decide +kernel⟩
    · exact ⟨"2.50", by decide +kernel⟩
  have hm : .rational ⟨-3, 4⟩ ∈ run vs ls := by decide +kernel
  have hq : (Fraction.mk (-3) 4).toRat = -3 / 4 := by decide +kernel
  refine ⟨hvs, by decide +kernel, hm, by decide +kernel, ?_⟩
  intro q hr h
  exact (run_closed hvs ls).2 q _ hr hm (h.trans hq.symm)

end Calculation

end TermReduction
