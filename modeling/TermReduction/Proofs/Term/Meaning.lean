import Mathlib.Algebra.BigOperators.Group.List.Basic
import TermReduction.Proofs.Number.Value
import TermReduction.Proofs.Term.Evaluation

/-!
The rational number that a term of the four operations of arithmetic stands for, as far as no real takes
part. Evaluation finds that number, and refuses a divisor that is zero where there is none.
-/

namespace TermReduction

namespace Operator

def isArithmetic : Operator → Bool
  | add | sub | mul | div => true
  | _                     => false

-- The operator on rational numbers; nothing if it divides by zero.
def meaning? : Operator → List Rat → Option Rat
  | add, qs      => some qs.sum
  | mul, qs      => some qs.prod
  | sub, [q]     => some (-q)
  | sub, q :: qs => some (q - qs.sum)
  | div, [q]     => if q = 0 then none else some q⁻¹
  | div, q :: qs => if qs.prod = 0 then none else some (q / qs.prod)
  | _, _         => none

end Operator

namespace Term

mutual

-- The rational number that a term stands for; nothing if any divisor in it is zero.
def meaning? (b : Bindings) : Term → Option Rat
  | literal v       => some v.toRat
  | identifier x    => (b.get? x).map (·.toRat)
  | operation op ts => do op.meaning? (← meanings? b ts)

def meanings? (b : Bindings) : List Term → Option (List Rat)
  | []      => some []
  | t :: ts => do
    let q ← meaning? b t
    return q :: (← meanings? b ts)

end

-- A term of arithmetic operations in which each identifier has a value and no value is real.
inductive Arithmetic (b : Bindings) : Term → Prop
  | literal {v} : v.isReal = false → Arithmetic b (.literal v)
  | identifier {x v} :
    isConstantName x = false → b.get? x = some v → v.isReal = false → Arithmetic b (.identifier x)
  | operation {op ts} : op.isArithmetic → (∀ t ∈ ts, Arithmetic b t) → Arithmetic b (.operation op ts)

mutual

def decArithmetic (b : Bindings) : (t : Term) → Decidable (t.Arithmetic b)
  | .literal v      =>
    decidable_of_iff (v.isReal = false) ⟨.literal, fun (.literal hr) => hr⟩
  | .identifier x   =>
    decidable_of_iff (isConstantName x = false ∧ ∃ v ∈ b.get? x, v.isReal = false)
      ⟨fun ⟨hc, _, hx, hr⟩ => .identifier hc hx hr, fun (.identifier hc hx hr) => ⟨hc, _, hx, hr⟩⟩
  | .operation op ts =>
    have := decArithmeticAll b ts
    decidable_of_iff (op.isArithmetic ∧ ∀ t ∈ ts, t.Arithmetic b)
      ⟨fun ⟨ho, hs⟩ => .operation ho hs, fun (.operation ho hs) => ⟨ho, hs⟩⟩

def decArithmeticAll (b : Bindings) : (ts : List Term) → Decidable (∀ t ∈ ts, t.Arithmetic b)
  | []      => isTrue (List.forall_mem_nil _)
  | t :: ts =>
    have := decArithmetic b t
    have := decArithmeticAll b ts
    decidable_of_iff' _ List.forall_mem_cons

end

instance (b : Bindings) : DecidablePred (Arithmetic b) := decArithmetic b

end Term

-- A computation on numbers that does what one on rational numbers does: where that has a result, the
-- results are related, and where it has none, a zero is refused as a divisor.
inductive Mirrors {α β : Type} (r : α → β → Prop) : Except Error α → Option β → Prop
  | value {a b} : r a b → Mirrors r (.ok a) (some b)
  | zero {v} : v.IsZero → Mirrors r (.error (.domain (.number v) .differentFrom 0)) none

theorem Mirrors.bind {α β γ δ : Type} {r : α → β → Prop} {s : γ → δ → Prop} {x : Except Error α}
    {y : Option β} {f : α → Except Error γ} {g : β → Option δ} (h : Mirrors r x y)
    (hfg : ∀ a b, x = .ok a → r a b → Mirrors s (f a) (g b)) : Mirrors s (x >>= f) (y >>= g) := by
  cases h
  case value a b h => exact hfg a b rfl h
  case zero hz     => exact .zero hz

open Number (Denotes)

-- Behind the check of a divisor nothing fails.
theorem Number.Denotes.mirrors_checked {v : Number} {q r : Rat} {x : Except Error Number}
    (h : v.Denotes r) (hx : r ≠ 0 → ∃ u, (v.ensureNonZero >>= fun _ => x) = .ok u ∧ u.Denotes q) :
    Mirrors Denotes (v.ensureNonZero >>= fun _ => x) (if r = 0 then none else some q) := by
  by_cases hr : r = 0
  case pos =>
    have hz : v.toRat = 0 := h.toRat_eq.trans hr
    rw [if_pos hr, ensureNonZero_of_eq h.wellFormed hz, Except.error_bind]
    exact .zero ((isZero_iff h.wellFormed).2 hz)
  case neg =>
    obtain ⟨u, hu, hd⟩ := hx hr
    rw [if_neg hr, hu]
    exact .value hd

theorem Operator.mirrors_apply [Binary64.Elementary] {op : Operator} {vs : List Number} {qs : List Rat}
    (ho : op.isArithmetic) (ha : op.arity.Accepts vs.length) (h : List.Forall₂ Denotes vs qs) :
    Mirrors Denotes (op.apply vs) (op.meaning? qs) := by
  cases op <;> try contradiction
  case add => exact .value (.sum h)
  case mul => exact .value (.product h)
  case sub =>
    cases h
    case nil         => exact absurd ha.1 (by decide)
    case cons hv hvs =>
      cases hvs
      case nil =>
        obtain ⟨u, hu, hd⟩ := hv.neg
        rw [apply, hu]
        exact .value hd
      case cons hw hvs => exact .value (hv.sub (.sum (.cons hw hvs)))
  case div =>
    cases h
    case nil         => exact absurd ha.1 (by decide)
    case cons hv hvs =>
      cases hvs
      case nil         => exact hv.mirrors_checked hv.inv
      case cons hw hvs =>
        have hd := Denotes.product (.cons hw hvs)
        exact hd.mirrors_checked (hv.div hd)

namespace Term

section

variable [Binary64.Elementary] {b : Bindings}

mutual

theorem mirrors_eval (hb : b.WellFormed) :
    (t : Term) → t.WellFormed → t.Arithmetic b → Mirrors Denotes (t.eval b) (t.meaning? b)
  | literal _, .literal hv, .literal hr => .value ⟨hv, hr, rfl⟩
  | identifier x, _, .identifier hc hx hr => by
    rw [eval, meaning?, Bindings.lookup_eq_ok_iff.2 ⟨hc, hx⟩, hx]
    exact .value ⟨hb x _ hx, hr, rfl⟩
  | operation op ts, .operation ha hts, .operation ho hs => by
    rw [eval, meaning?]
    refine (mirrors_evalAll hb ts hts hs).bind fun vs qs hvs h => ?_
    exact op.mirrors_apply ho (length_of_evalAll hvs ▸ ha) h

theorem mirrors_evalAll (hb : b.WellFormed) : (ts : List Term) → (∀ t ∈ ts, t.WellFormed) →
    (∀ t ∈ ts, t.Arithmetic b) → Mirrors (List.Forall₂ Denotes) (evalAll b ts) (meanings? b ts)
  | [], _, _          => .value .nil
  | t :: ts, hts, hs => by
    obtain ⟨ht, hts⟩ := List.forall_mem_cons.1 hts
    obtain ⟨h, hs⟩ := List.forall_mem_cons.1 hs
    rw [evalAll, meanings?]
    refine (mirrors_eval hb t ht h).bind fun v q _ hv => ?_
    exact (mirrors_evalAll hb ts hts hs).bind fun vs qs _ hvs => .value (.cons hv hvs)

end

-- Evaluation of an arithmetic term is exact. Its value is an integer or a fraction and is the number
-- that the term stands for, and if it stands for none, the evaluation refuses a zero.
theorem eval_exact {t : Term} (hb : b.WellFormed) (ht : t.WellFormed) (h : t.Arithmetic b) :
    (∀ q, t.meaning? b = some q → ∃ v, t.eval b = .ok v ∧ v.isReal = false ∧ v.toRat = q) ∧
      (t.meaning? b = none →
        ∃ v, v.IsZero ∧ t.eval b = .error (.domain (.number v) .differentFrom 0)) := by
  have hm := mirrors_eval hb t ht h
  generalize t.eval b = x, t.meaning? b = y at hm ⊢
  cases hm
  case value v q hv =>
    refine ⟨fun q' hq => ⟨v, rfl, hv.isReal_eq, ?value⟩, nofun⟩
    case value => exact hv.toRat_eq.trans (Option.some.inj hq)
  case zero v hz => exact ⟨nofun, fun _ => ⟨v, hz, rfl⟩⟩

end

open scoped Binary64.Rounded

-- The sum of `x`, one third and two, divided by the product of nothing and minus four; and a divisor
-- that is the difference of two equal fractions.
theorem eval_exact_quotients :
    let b := Bindings.empty.insert "x" (.rational ⟨1, 2⟩)
    let x := Term.identifier "x"
    let t := operation .div [operation .add [literal (.rational ⟨1, 3⟩), x, literal (.rational ⟨2, 1⟩)],
      operation .mul [], operation .sub [literal (.integer 4)]]
    let u := operation .mul [literal (.integer 0), operation .div [operation .sub
      [literal (.rational ⟨1, 2⟩), x]]]
    b.WellFormed ∧ (t.WellFormed ∧ t.Arithmetic b) ∧ (u.WellFormed ∧ u.Arithmetic b) ∧
      (∃ v, t.eval b = .ok v ∧ v.isReal = false ∧ v.toRat = -17 / 24) ∧
        ∃ v, v.IsZero ∧ u.eval b = .error (.domain (.number v) .differentFrom 0) := by
  intro b x t u
  have hb : b.WellFormed := Bindings.wellFormed_empty.insert (v := .rational _) ⟨by decide, by decide⟩ "x"
  have ht : t.WellFormed := by decide +kernel
  have hu : u.WellFormed := by decide +kernel
  have hta : t.Arithmetic b := by decide +kernel
  have hua : u.Arithmetic b := by decide +kernel
  have htm : t.meaning? b = some (-17 / 24) := by decide +kernel
  have hum : u.meaning? b = none := by decide +kernel
  exact ⟨hb, ⟨ht, hta⟩, ⟨hu, hua⟩, (eval_exact hb ht hta).1 _ htm, (eval_exact hb hu hua).2 hum⟩

end Term

end TermReduction
