import TermReduction.Proofs.Number.Canonical

/-!
Arithmetic on integers and fractions as arithmetic on rational numbers. Every result has the one form
that its value has, so that the laws of rational numbers hold of results as they are.
-/

namespace TermReduction.Number

variable {u u' v v' w : Number} {p q r : Rat} {f : Fraction}

-- The form of a rational number: the integer that it is, or else its fraction in lowest terms.
inductive ExactForm (q : Rat) : Number → Prop
  | integer {n : Int} : q = n → ExactForm q (integer n)
  | rational {f : Fraction} :
    (∀ n : Int, q ≠ n) → f.Reduced → f.toRat = q → ExactForm q (rational f)

-- The same number, where an integer may have become a fraction over one.
inductive OverOne : Number → Number → Prop
  | same (v : Number) : OverOne v v
  | integer (n : Int) : OverOne (integer n) (rational (.ofInt n))

theorem ExactForm.unique : ExactForm q v → ExactForm q w → v = w
  | .integer h, .integer h'             => congrArg Number.integer (Int.cast_inj.1 (h.symm.trans h'))
  | .rational _ hf h, .rational _ hg h' =>
    congrArg Number.rational (hf.eq_of_toRat_eq hg (h.trans h'.symm))
  | .integer h, .rational hn _ _        => absurd h (hn _)
  | .rational hn _ _, .integer h        => absurd h (hn _)

theorem Denotes.exactForm (hv : v.Denotes q) (hc : v.Canonical) : ExactForm q v := by
  obtain ⟨hw, hr, rfl⟩ := hv
  cases v
  case integer n  => exact .integer rfl
  case rational f =>
    refine .rational (fun n hn => ?_) hw rfl
    cases (canonical_iff hw).1 hc n hn
  case real x     => contradiction

theorem ExactForm.eq_ofFraction (hv : ExactForm q v) (hf : f.Reduced) (h : f.toRat = q) :
    v = ofFraction f :=
  hv.unique (h ▸ (Denotes.ofFraction hf).exactForm (canonical_ofFraction f))

theorem OverOne.denotes : v.OverOne w → v.Denotes q → w.Denotes q
  | .same _, hv    => hv
  | .integer n, hv => ⟨.ofInt n, rfl, (Fraction.toRat_ofInt n).trans hv.toRat_eq⟩

namespace Denotes

-- Where an operation on numbers is the same operation on integers and on fractions, it makes no difference
-- whether integers are taken for fractions first.
theorem combine_eq_ofFraction {onInt : Int → Int → Int} {onFraction : Fraction → Fraction → Fraction}
    {onDecimal : Decimal → Decimal → Decimal} {op : Rat → Rat → Rat}
    (hi : ∀ m n, (onInt m n : Rat) = op m n)
    (hf : ∀ {f g : Fraction}, f.Reduced → g.Reduced →
      (onFraction f g).Reduced ∧ (onFraction f g).toRat = op f.toRat g.toRat)
    (hu : u.Denotes p) (hv : v.Denotes q) :
    Number.combine onInt onFraction onDecimal u v =
      Number.ofFraction (onFraction u.toFraction v.toFraction) := by
  obtain ⟨huf, hup⟩ := hu.toFraction
  obtain ⟨hvf, hvq⟩ := hv.toFraction
  obtain ⟨hr, ho⟩ := hf huf hvf
  refine ((hu.combine hi hf hv).exactForm (canonical_combine ..)).eq_ofFraction hr ?_
  rw [ho, hup, hvq]

variable (hu : u.Denotes p) (hv : v.Denotes q)
include hu hv

theorem exactForm_add : ExactForm (p + q) (u.add v) :=
  (hu.add hv).exactForm (canonical_combine ..)

theorem exactForm_sub : ExactForm (p - q) (u.sub v) :=
  (hu.sub hv).exactForm (canonical_combine ..)

theorem exactForm_mul : ExactForm (p * q) (u.mul v) :=
  (hu.mul hv).exactForm (canonical_combine ..)

theorem exactForm_div (hq : q ≠ 0) : ∃ z, u.div v = .ok z ∧ ExactForm (p / q) z := by
  obtain ⟨z, hz, hd⟩ := hu.div hv hq
  exact ⟨z, hz, hd.exactForm (canonical_div hz)⟩

theorem add_eq_ofFraction : u.add v = Number.ofFraction (u.toFraction + v.toFraction) :=
  hu.combine_eq_ofFraction Int.cast_add
    (fun hf hg => ⟨hf.add hg, Fraction.toRat_add hf.ne_zero hg.ne_zero⟩) hv

theorem sub_eq_ofFraction : u.sub v = Number.ofFraction (u.toFraction - v.toFraction) :=
  hu.combine_eq_ofFraction Int.cast_sub
    (fun hf hg => ⟨hf.sub hg, Fraction.toRat_sub hf.ne_zero hg.ne_zero⟩) hv

theorem mul_eq_ofFraction : u.mul v = Number.ofFraction (u.toFraction * v.toFraction) :=
  hu.combine_eq_ofFraction Int.cast_mul
    (fun hf hg => ⟨hf.mul hg, Fraction.toRat_mul hf.ne_zero hg.ne_zero⟩) hv

theorem div_eq_ofFraction (h : q ≠ 0) :
    u.div v = .ok (Number.ofFraction (u.toFraction * v.toFraction.inv)) := by
  obtain ⟨hf, hp⟩ := hu.toFraction
  obtain ⟨hg, hq⟩ := hv.toFraction
  have hi : v.toFraction.inv.Reduced := hg.inv (mt hg.toRat_eq_zero.2 (hq ▸ h))
  obtain ⟨z, hz, hd⟩ := hu.exactForm_div hv h
  rw [hz, hd.eq_ofFraction (hf.mul hi)]
  rw [Fraction.toRat_mul hf.ne_zero hi.ne_zero, Fraction.toRat_inv, hp, hq, div_eq_mul_inv]

-- Quotients of equal numbers are the same, whatever the forms of the numbers.
theorem div_congr (hu' : u'.Denotes p) (hv' : v'.Denotes q) (h : q ≠ 0) : u'.div v' = u.div v := by
  obtain ⟨z, hz, hd⟩ := hu.exactForm_div hv h
  obtain ⟨z', hz', hd'⟩ := hu'.exactForm_div hv' h
  rw [hz, hz', hd'.unique hd]

end Denotes

-- A quotient of integers is their fraction, brought into lowest terms at once.
theorem div_integer (m : Int) {n : Int} (hn : n ≠ 0) :
    (integer m).div (integer n) = .ok (ofFraction (.reduce m n)) := by
  have hq : (n : Rat) ≠ 0 := Int.cast_ne_zero.2 hn
  obtain ⟨z, hz, hd⟩ := (Denotes.integer m).exactForm_div (.integer n) hq
  rw [hz, hd.eq_ofFraction (.reduce m hn) (Fraction.toRat_reduce m hn)]

-- Sums, differences, products and quotients of integers and fractions are exact, and they have the form
-- of their values. So fractions may be computed with throughout, integers may be written over one, and
-- the laws of commutativity, associativity and distributivity hold of the results themselves.
theorem exact_arithmetic (hu : u.Denotes p) (hv : v.Denotes q) (hw : w.Denotes r) :
    (ExactForm (p + q) (u.add v) ∧ ExactForm (p - q) (u.sub v) ∧ ExactForm (p * q) (u.mul v) ∧
      (q ≠ 0 → ∃ z, u.div v = .ok z ∧ ExactForm (p / q) z)) ∧
    (u.add v = ofFraction (u.toFraction + v.toFraction) ∧
      u.sub v = ofFraction (u.toFraction - v.toFraction) ∧
      u.mul v = ofFraction (u.toFraction * v.toFraction) ∧
      (q ≠ 0 → u.div v = .ok (ofFraction (u.toFraction * v.toFraction.inv))) ∧
      ∀ m n : Int, n ≠ 0 → (integer m).div (integer n) = .ok (ofFraction (.reduce m n))) ∧
    (∀ u' v', u.OverOne u' → v.OverOne v' →
      u'.add v' = u.add v ∧ u'.sub v' = u.sub v ∧ u'.mul v' = u.mul v ∧
        (q ≠ 0 → u'.div v' = u.div v)) ∧
    (u.add v = v.add u ∧ (u.add v).add w = u.add (v.add w)) ∧
    (u.mul v = v.mul u ∧ (u.mul v).mul w = u.mul (v.mul w)) ∧
    u.mul (v.add w) = (u.mul v).add (u.mul w) := by
  refine ⟨?forms, ?fractions, ?overOne, ⟨?add_comm, ?add_assoc⟩, ⟨?mul_comm, ?mul_assoc⟩, ?mul_add⟩
  case forms     => exact ⟨hu.exactForm_add hv, hu.exactForm_sub hv, hu.exactForm_mul hv, hu.exactForm_div hv⟩
  case fractions =>
    exact ⟨hu.add_eq_ofFraction hv, hu.sub_eq_ofFraction hv, hu.mul_eq_ofFraction hv,
      hu.div_eq_ofFraction hv, fun m _ => div_integer m⟩
  case overOne   =>
    intro u' v' hou hov
    have hu' := hou.denotes hu
    have hv' := hov.denotes hv
    exact ⟨(hu'.exactForm_add hv').unique (hu.exactForm_add hv),
      (hu'.exactForm_sub hv').unique (hu.exactForm_sub hv),
      (hu'.exactForm_mul hv').unique (hu.exactForm_mul hv), hu.div_congr hv hu' hv'⟩
  case add_comm  =>
    have h := hv.exactForm_add hu
    rw [add_comm] at h
    exact (hu.exactForm_add hv).unique h
  case add_assoc =>
    have h := (hu.add hv).exactForm_add hw
    rw [add_assoc] at h
    exact h.unique (hu.exactForm_add (hv.add hw))
  case mul_comm  =>
    have h := hv.exactForm_mul hu
    rw [mul_comm] at h
    exact (hu.exactForm_mul hv).unique h
  case mul_assoc =>
    have h := (hu.mul hv).exactForm_mul hw
    rw [mul_assoc] at h
    exact h.unique (hu.exactForm_mul (hv.mul hw))
  case mul_add   =>
    have h := hu.exactForm_mul (hv.add hw)
    rw [mul_add] at h
    exact h.unique ((hu.mul hv).exactForm_add (hu.mul hw))

-- A half, minus three halves and four.
theorem exact_arithmetic_halves :
    let u := rational ⟨1, 2⟩
    let v := rational ⟨-3, 2⟩
    let w := integer 4
    (u.Denotes (1 / 2) ∧ v.Denotes (-3 / 2) ∧ w.Denotes 4) ∧
      ExactForm (-1) (u.add v) ∧ (∃ z, v.div w = .ok z ∧ ExactForm (-3 / 8) z) ∧
      w.add (rational (.ofInt 4)) = integer 8 ∧ (u.mul v).mul w = u.mul (v.mul w) ∧
      w.mul (u.add v) = (w.mul u).add (w.mul v) := by
  intro u v w
  have hu : u.Denotes (1 / 2) := ⟨by decide, rfl, by decide +kernel⟩
  have hv : v.Denotes (-3 / 2) := ⟨by decide, rfl, by decide +kernel⟩
  have hw : w.Denotes 4 := .integer 4
  have huv := exact_arithmetic hu hv hw
  have hvw := exact_arithmetic hv hw hu
  have hww := exact_arithmetic hw hw hu
  have hwu := exact_arithmetic hw hu hv
  have hs : (1 / 2 + -3 / 2 : Rat) = -1 := by norm_num
  have hd : (-3 / 2 / 4 : Rat) = -3 / 8 := by norm_num
  refine ⟨⟨hu, hv, hw⟩, hs ▸ huv.1.1, hd ▸ hvw.1.2.2.2 (by decide), ?_, huv.2.2.2.2.1.2, hwu.2.2.2.2.2⟩
  exact (hww.2.2.1 w _ (.same w) (.integer 4)).1

end TermReduction.Number
