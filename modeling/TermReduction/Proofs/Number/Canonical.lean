import TermReduction.Proofs.Number.Negation

/-!
Canonical numbers, which are of the integer kind if they are integers. All operations give canonical
numbers, apart from those that take a single operand over as it is or only change its sign.
-/

namespace TermReduction

namespace Number

variable {v w : Number}

-- A number that is not an integer in the form of a fraction or of a real.
def Canonical : Number → Prop
  | integer _  => True
  | rational q => q.denominator ≠ 1
  | real x     => ¬x.IsWhole

instance : DecidablePred Canonical
  | integer _  => inferInstanceAs (Decidable True)
  | rational q => inferInstanceAs (Decidable (q.denominator ≠ 1))
  | real x     => inferInstanceAs (Decidable ¬x.IsWhole)

theorem canonical_iff (hv : v.WellFormed) :
    v.Canonical ↔ ∀ n : Int, v.toRat = n → v = integer n := by
  cases v
  case integer m  => simp [Canonical, toRat]
  case rational q =>
    simp only [Canonical, ne_eq, Fraction.Reduced.denominator_eq_one_iff hv, toRat, not_exists,
      reduceCtorEq, imp_false]
  case real x     =>
    simp only [Canonical, Fixed.isWhole_iff, toRat, not_exists, reduceCtorEq, imp_false]

theorem canonical_ofFraction (q : Fraction) : (ofFraction q).Canonical := by
  unfold ofFraction
  split
  case isTrue    => trivial
  case isFalse h => exact h

theorem canonical_ofFixed (x : Fixed) : (ofFixed x).Canonical := by
  unfold ofFixed
  split
  case isTrue    => trivial
  case isFalse h => exact h

theorem canonical_combine (onInt : Int → Int → Int) (onFraction : Fraction → Fraction → Fraction)
    (onDecimal : Decimal → Decimal → Decimal) (v w : Number) :
    (combine onInt onFraction onDecimal v w).Canonical := by
  unfold combine
  split
  case h_1 => trivial
  case h_2 =>
    split
    case isTrue  => exact canonical_ofFixed _
    case isFalse => exact canonical_ofFraction _

-- Whether it is rounded or not, a quotient is brought into its form.
theorem canonical_quotient {p : Prop} [Decidable p] {x : Except Error Fixed} {q : Fraction}
    (h : (if p then x >>= fun y => .ok (ofFixed y) else .ok (ofFraction q)) = .ok w) : w.Canonical := by
  split at h
  case isTrue  =>
    obtain ⟨x, rfl⟩ := exists_ofFixed_of_bind h
    exact canonical_ofFixed x
  case isFalse =>
    cases h
    exact canonical_ofFraction q

theorem canonical_inv (h : v.inv = .ok w) : w.Canonical := by
  obtain ⟨_, _, h⟩ := Except.bind_eq_ok.1 h
  exact canonical_quotient h

theorem canonical_div {u : Number} (h : v.div w = .ok u) : u.Canonical := by
  obtain ⟨_, _, h⟩ := Except.bind_eq_ok.1 h
  exact canonical_quotient h

theorem canonical_opposite : v.opposite.Canonical ↔ v.Canonical := by
  cases v
  case real x => exact not_congr Fixed.isWhole_opposite
  all_goals rfl

theorem NegatesExactly.canonical_iff (hv : v.NegatesExactly) (h : v.neg = .ok w) :
    w.Canonical ↔ v.Canonical := by
  rw [hv.neg_eq] at h
  cases h
  exact canonical_opposite

-- A real that is an integer has a negative that is one, also where digits are lost.
theorem canonical_of_neg (h : v.neg = .ok w) (hw : w.Canonical) : v.Canonical := by
  cases v
  case integer    => trivial
  case rational q =>
    cases h
    exact hw
  case real x     =>
    obtain ⟨y, hx, rfl⟩ := neg_real_eq_ok.1 h
    exact mt Fixed.IsWhole.neg (Fixed.eq_neg_of_negate hx ▸ hw)

end Number

namespace Operator

-- A single operand that an operator hands on, as it is or with its sign changed.
inductive Passes : Operator → Number → Number → Prop
  | sum {v} : Passes add v v
  | product {v} : Passes mul v v
  | negative {v w} : v.neg = .ok w → Passes sub v w

variable {op : Operator} {v w : Number}

theorem Passes.canonical_iff (h : op.Passes v w) (hv : op = sub → v.NegatesExactly) :
    w.Canonical ↔ v.Canonical := by
  cases h
  case sum        => rfl
  case product    => rfl
  case negative h => exact (hv rfl).canonical_iff h

theorem Passes.canonical_of_canonical (h : op.Passes v w) (hw : w.Canonical) : v.Canonical := by
  cases h
  case sum        => exact hw
  case product    => exact hw
  case negative h => exact Number.canonical_of_neg h hw

theorem canonical_or_passes [Binary64.Elementary] {vs : List Number} (h : op.apply vs = .ok w) :
    w.Canonical ∨ ∃ v, vs = [v] ∧ op.Passes v w := by
  cases applies_of_apply h
  case sum =>
    rcases vs with _ | ⟨v, _ | _⟩
    · exact .inl trivial
    · exact .inr ⟨v, rfl, .sum⟩
    · exact .inl (Number.canonical_combine ..)
  case product =>
    rcases vs with _ | ⟨v, _ | _⟩
    · exact .inl trivial
    · exact .inr ⟨v, rfl, .product⟩
    · exact .inl (Number.canonical_combine ..)
  case negative h => exact .inr ⟨_, rfl, .negative h⟩
  case difference => exact .inl (Number.canonical_combine ..)
  case inverse h  => exact .inl (Number.canonical_inv h)
  case quotient h => exact .inl (Number.canonical_div h)
  case rounded    => exact .inl (Number.canonical_ofFixed _)

end Operator

namespace Term

section

variable [Binary64.Elementary] {b : Bindings} {op : Operator} {t : Term} {ts : List Term} {v : Number}

theorem evalAll_eq_singleton : evalAll b ts = .ok [v] ↔ ∃ t, ts = [t] ∧ t.eval b = .ok v := by
  constructor
  case mp =>
    intro h
    obtain ⟨t, rfl⟩ := List.length_eq_one_iff.1 (length_of_evalAll h).symm
    obtain ⟨w, ws, hw, hws, hv⟩ := evalAll_cons_eq_ok.1 h
    cases hws
    cases hv
    exact ⟨t, rfl, hw⟩
  case mpr =>
    rintro ⟨t, rfl, h⟩
    exact evalAll_cons_eq_ok.2 ⟨v, [], h, rfl, rfl⟩

-- Each literal and each bound value is canonical.
def LeavesCanonical (b : Bindings) (t : Term) : Prop :=
  ∀ s ∈ t.subterms, s.isOperation = false → ∀ v, s.eval b = .ok v → v.Canonical

-- No digits are lost where a sign is changed.
def NegationsExact (b : Bindings) (t : Term) : Prop :=
  ∀ s, operation .sub [s] ∈ t.subterms → ∀ v, s.eval b = .ok v → v.NegatesExactly

theorem canonical_eval_of_leaves (hl : t.LeavesCanonical b) (hn : t.NegationsExact b)
    (h : t.eval b = .ok v) : v.Canonical := by
  induction t generalizing v with
  | literal w          => exact hl _ (mem_subterms_self _) rfl v h
  | identifier x       => exact hl _ (mem_subterms_self _) rfl v h
  | operation op ts ih =>
    obtain ⟨vs, hvs, ha⟩ := eval_operation_eq_ok.1 h
    rcases Operator.canonical_or_passes ha with hc | ⟨w, rfl, hp⟩
    · exact hc
    · obtain ⟨t, rfl, ht⟩ := evalAll_eq_singleton.1 hvs
      have hs : ∀ s ∈ t.subterms, s ∈ (operation op [t]).subterms := by
        intro s hs
        simp [subterms, subtermsAll, hs]
      have hw : w.Canonical :=
        ih t List.mem_cons_self (fun s h => hl s (hs s h)) (fun s h => hn s (hs _ h)) ht
      refine (hp.canonical_iff ?_).2 hw
      rintro rfl
      exact hn t (mem_subterms_self _) w ht

-- The value of an operation is canonical, unless the operation hands its only operand on and either
-- that is not canonical or its negative is rounded. What is not canonical does not become so that way.
theorem canonical_eval (h : (operation op ts).eval b = .ok v) :
    (v.Canonical ∨ ∃ t w, ts = [t] ∧ t.eval b = .ok w ∧ op.Passes w v ∧
      (w.Canonical → op = .sub ∧ ¬w.NegatesExactly)) ∧
    ∀ t w, ts = [t] → t.eval b = .ok w → op.Passes w v → v.Canonical → w.Canonical := by
  refine ⟨?_, fun _ _ _ _ hp => hp.canonical_of_canonical⟩
  by_cases hc : v.Canonical
  case pos => exact .inl hc
  case neg =>
    obtain ⟨vs, hvs, ha⟩ := eval_operation_eq_ok.1 h
    obtain ⟨w, rfl, hp⟩ := (Operator.canonical_or_passes ha).resolve_left hc
    obtain ⟨t, rfl, ht⟩ := evalAll_eq_singleton.1 hvs
    refine .inr ⟨t, w, rfl, ht, hp, fun hw => ?_⟩
    have hn : ¬(op = .sub → w.NegatesExactly) := fun hn => hc ((hp.canonical_iff hn).2 hw)
    exact Classical.not_imp.1 hn

end

open scoped Binary64.Rounded

-- The half that ten to the 28 and a half loses with its sign.
theorem canonical_eval_half :
    let x := Number.real ⟨10000000000000000000000000000500000000000000⟩
    let y := Number.real ⟨-10000000000000000000000000000000000000000000⟩
    (operation .sub [literal x]).eval .empty = .ok y ∧ x.Canonical ∧ ¬y.Canonical ∧
      ¬x.NegatesExactly := by
  intro x y
  have h : (operation .sub [literal x]).eval .empty = .ok y := by decide +kernel
  have hx : x.Canonical := by decide +kernel
  have hy : ¬y.Canonical := by decide +kernel
  obtain ⟨t, w, ht, hw, -, hn⟩ := (canonical_eval h).1.resolve_left hy
  cases ht
  cases hw
  exact ⟨h, hx, hy, (hn hx).2⟩

-- The real and the fraction two have negatives of their kinds, and the real is its own sum.
theorem eval_not_canonical :
    let x := Number.real (.ofInt 2)
    let q := Number.rational ⟨2, 1⟩
    (operation .sub [literal x]).eval .empty = .ok (.real (.ofInt (-2))) ∧
      (operation .sub [literal q]).eval .empty = .ok (.rational ⟨-2, 1⟩) ∧
      (operation .add [literal x]).eval .empty = .ok x ∧ ¬x.Canonical ∧
      ¬(Number.real (.ofInt (-2))).Canonical ∧ ¬(Number.rational ⟨-2, 1⟩).Canonical := by
  decide +kernel

end Term

end TermReduction
