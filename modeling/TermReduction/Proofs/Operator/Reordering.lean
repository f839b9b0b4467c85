import Mathlib.Algebra.BigOperators.Group.List.Basic
import TermReduction.Proofs.Number.Exact
import TermReduction.Proofs.Number.Rounded

/-!
Sums of integers and reals, and sums and products of integers and fractions, of any number of operands:
they are those of the values, in their form, and do not depend on the order of the operands.
-/

namespace TermReduction

namespace Number

variable {v w : Number} {vs ws : List Number}

theorem wellFormed_of_isRational (hv : v.isRational = false) : v.WellFormed := by
  cases v
  case rational => contradiction
  all_goals trivial

theorem FixedForm.isRational_eq {q : Rat} : FixedForm q v → v.isRational = false
  | .integer _ => rfl
  | .real _ _  => rfl

theorem exists_integer (hv : v.isRational = false) (hr : ¬v.isReal) : ∃ n, v = integer n := by
  cases v
  case integer n => exact ⟨n, rfl⟩
  case rational  => contradiction
  case real      => exact absurd rfl hr

theorem fixedForm_add_of_isRational (hv : v.isRational = false) (hw : w.isRational = false) :
    FixedForm (v.toRat + w.toRat) (v.add w) := by
  by_cases h : v.isReal ∨ w.isReal
  case pos =>
    rw [← fixedValue_eq hv, ← fixedValue_eq hw]
    exact fixedForm_add (wellFormed_of_isRational hv) (wellFormed_of_isRational hw) h
  case neg =>
    obtain ⟨hv', hw'⟩ := not_or.1 h
    obtain ⟨m, rfl⟩ := exists_integer hv hv'
    obtain ⟨n, rfl⟩ := exists_integer hw hw'
    exact .integer (Int.cast_add m n).symm

-- Partial sums may be integers or reals, as it happens, and their values add up all the same.
theorem sum_of_isRational : {vs : List Number} → (∀ v ∈ vs, v.isRational = false) →
    (sum vs).isRational = false ∧ (sum vs).toRat = (vs.map toRat).sum
  | [], _           => ⟨rfl, Int.cast_zero⟩
  | [v], h          => ⟨h v (List.mem_singleton_self v), (add_zero v.toRat).symm⟩
  | v :: w :: vs, h => by
    obtain ⟨hv, hvs⟩ := List.forall_mem_cons.1 h
    obtain ⟨hs, hq⟩ := sum_of_isRational hvs
    have hf : FixedForm (v.toRat + (sum (w :: vs)).toRat) (sum (v :: w :: vs)) :=
      fixedForm_add_of_isRational hv hs
    rw [List.map_cons, List.sum_cons, ← hq]
    exact ⟨hf.isRational_eq, hf.toRat_eq⟩

theorem fixedForm_sum (hl : 2 ≤ vs.length) (h : ∀ v ∈ vs, v.isRational = false) :
    FixedForm (vs.map toRat).sum (sum vs) := by
  match vs with
  | v :: w :: vs =>
    obtain ⟨hv, hvs⟩ := List.forall_mem_cons.1 h
    obtain ⟨hs, hq⟩ := sum_of_isRational hvs
    rw [List.map_cons, List.sum_cons, ← hq]
    exact fixedForm_add_of_isRational hv hs

theorem forall₂_denotes (hw : ∀ v ∈ vs, v.WellFormed) (h : ∀ v ∈ vs, v.isReal = false) :
    List.Forall₂ Denotes vs (vs.map toRat) :=
  List.forall₂_map_right_iff.2 (List.forall₂_same.2 fun v hv => ⟨hw v hv, h v hv, rfl⟩)

section Exact

variable (hl : 2 ≤ vs.length) (hw : ∀ v ∈ vs, v.WellFormed) (h : ∀ v ∈ vs, v.isReal = false)
include hl hw h

theorem exactForm_sum : ExactForm (vs.map toRat).sum (sum vs) := by
  refine (Denotes.sum (forall₂_denotes hw h)).exactForm ?_
  match vs with
  | _ :: _ :: _ => exact canonical_combine ..

theorem exactForm_product : ExactForm (vs.map toRat).prod (product vs) := by
  refine (Denotes.product (forall₂_denotes hw h)).exactForm ?_
  match vs with
  | _ :: _ :: _ => exact canonical_combine ..

end Exact

end Number

namespace Operator

open Number (ExactForm FixedForm)

variable {vs ws : List Number}

-- A sum of two or more integers and reals is the exact sum, and so are a sum and a product of two or more
-- integers and fractions, all in the form of their values and in any order of the operands.
theorem apply_perm [Binary64.Elementary] (hl : 2 ≤ vs.length) (hw : ∀ v ∈ vs, v.WellFormed) (hp : vs.Perm ws) :
    ((∀ v ∈ vs, v.isRational = false) →
      ∃ u, add.apply vs = .ok u ∧ FixedForm (vs.map Number.toRat).sum u ∧ add.apply ws = .ok u) ∧
    ((∀ v ∈ vs, v.isReal = false) →
      (∃ u, add.apply vs = .ok u ∧ ExactForm (vs.map Number.toRat).sum u ∧ add.apply ws = .ok u) ∧
      ∃ u, mul.apply vs = .ok u ∧ ExactForm (vs.map Number.toRat).prod u ∧ mul.apply ws = .ok u) := by
  have hl' : 2 ≤ ws.length := hp.length_eq ▸ hl
  have hw' : ∀ v ∈ ws, v.WellFormed := fun v hv => hw v (hp.mem_iff.2 hv)
  have hs : (ws.map Number.toRat).sum = (vs.map Number.toRat).sum := (hp.map _).symm.sum_eq
  have hm : (ws.map Number.toRat).prod = (vs.map Number.toRat).prod := (hp.map _).symm.prod_eq
  constructor
  case left  =>
    intro h
    have h' : ∀ v ∈ ws, v.isRational = false := fun v hv => h v (hp.mem_iff.2 hv)
    have hf := Number.fixedForm_sum hl h
    have hf' := hs ▸ Number.fixedForm_sum hl' h'
    exact ⟨_, rfl, hf, congrArg Except.ok (hf'.unique hf)⟩
  case right =>
    intro h
    have h' : ∀ v ∈ ws, v.isReal = false := fun v hv => h v (hp.mem_iff.2 hv)
    have hf := Number.exactForm_sum hl hw h
    have hf' := hs ▸ Number.exactForm_sum hl' hw' h'
    have hg := Number.exactForm_product hl hw h
    have hg' := hm ▸ Number.exactForm_product hl' hw' h'
    exact ⟨⟨_, rfl, hf, congrArg Except.ok (hf'.unique hf)⟩,
      ⟨_, rfl, hg, congrArg Except.ok (hg'.unique hg)⟩⟩

open scoped Binary64.Rounded

-- Halves of both signs, which cancel before or after the integer is added; and fractions whose product is
-- an integer for a while.
theorem apply_perm_halves :
    let vs := [.real ⟨500000000000000⟩, .integer 3, .real ⟨-500000000000000⟩]
    let ws := [.integer 3, .real ⟨-500000000000000⟩, .real ⟨500000000000000⟩]
    let fs := [.rational ⟨1, 2⟩, .rational ⟨-1, 3⟩, .integer 2]
    let gs := [.rational ⟨-1, 3⟩, .integer 2, .rational ⟨1, 2⟩]
    (2 ≤ vs.length ∧ (∀ v ∈ vs, v.WellFormed) ∧ vs.Perm ws ∧ ∀ v ∈ vs, v.isRational = false) ∧
      (2 ≤ fs.length ∧ (∀ v ∈ fs, v.WellFormed) ∧ fs.Perm gs ∧ ∀ v ∈ fs, v.isReal = false) ∧
      add.apply vs = .ok (.integer 3) ∧ add.apply ws = add.apply vs ∧
      mul.apply fs = .ok (.rational ⟨-1, 3⟩) ∧ mul.apply gs = mul.apply fs := by
  intro vs ws fs gs
  have hl : 2 ≤ vs.length := by decide
  have hw : ∀ v ∈ vs, v.WellFormed := by decide
  have hp : vs.Perm ws := by decide
  have hr : ∀ v ∈ vs, v.isRational = false := by decide
  have hl' : 2 ≤ fs.length := by decide
  have hw' : ∀ v ∈ fs, v.WellFormed := by decide
  have hp' : fs.Perm gs := by decide
  have hr' : ∀ v ∈ fs, v.isReal = false := by decide
  obtain ⟨u, hu, -, hu'⟩ := (apply_perm hl hw hp).1 hr
  obtain ⟨z, hz, -, hz'⟩ := ((apply_perm hl' hw' hp').2 hr').2
  exact ⟨⟨hl, hw, hp, hr⟩, ⟨hl', hw', hp', hr'⟩, by decide +kernel, hu'.trans hu.symm, by decide +kernel,
    hz'.trans hz.symm⟩

end Operator

end TermReduction
