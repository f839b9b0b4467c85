import TermReduction.Proofs.Logarithm.Rounded
import TermReduction.Proofs.Number.Negation
import TermReduction.Proofs.Operator.Failure
import TermReduction.Proofs.Term.Folding
import TermReduction.Proofs.Term.RoundTrip
import TermReduction.Proofs.Term.Substitution
import TermReduction.Proofs.Term.WellFormed

/-!
How evaluation fails. Every term that is read or loaded has as many operands at each operator as it takes,
and so has every term that a reduction makes of it. So evaluation can only fail at an identifier, at a
refused operand, in a division by what is nothing in fixed point or in the negation of a real that is too
large.
-/

namespace TermReduction.Term

section

variable [Binary64.Elementary]

-- A term that was read or loaded, or that steps of reductions have made of one.
inductive Reached : Term → Prop
  | read {tokens t} : ofTokens tokens = .ok t → Reached t
  | readByStack {tokens t} : ofTokensByStack tokens = .ok t → Reached t
  | loaded {j t} : ofJson j = .ok t → Reached t
  | substituted {b t u} : b.WellFormed → Reached t → t.substitute b = .ok u → Reached u
  | folded {b t u n} : b.WellFormed → Reached t → t.foldInnermost b = .ok (u, n) → Reached u

theorem Reached.wellFormed {t : Term} (h : t.Reached) : t.WellFormed := by
  induction h
  case read h                => exact (derives_of_ofTokens h).wellFormed
  case readByStack h         => exact (derives_of_ofTokens (ofTokensByStack_eq _ ▸ h)).wellFormed
  case loaded h              =>
    obtain ⟨d, _, ht⟩ := ofJson_eq_ok_iff.1 h
    exact (TermDocument.sound_of_toTerm d ht).1
  case substituted hb _ h ih => exact (substitutes_of_eq_ok _ h).simplifies.wellFormed hb ih
  case folded hb _ h ih      => exact (folds_of_eq_ok _ h).simplifies.wellFormed hb ih

mutual

-- The operations that an evaluation makes, with the values of their operands. Behind the first failure
-- it makes none.
inductive Performs (b : Bindings) : Term → Operator → List Number → Prop
  | self {op ts vs} : evalAll b ts = .ok vs → Performs b (.operation op ts) op vs
  | operand {op op' ts vs} : PerformsAll b ts op vs → Performs b (.operation op' ts) op vs

inductive PerformsAll (b : Bindings) : List Term → Operator → List Number → Prop
  | head {t ts op vs} : Performs b t op vs → PerformsAll b (t :: ts) op vs
  | tail {t ts v op vs} : t.eval b = .ok v → PerformsAll b ts op vs → PerformsAll b (t :: ts) op vs

end

-- Where a failure comes from: an identifier without a value, or an operation that fails.
inductive Blames (b : Bindings) (names : List String) (performs : Operator → List Number → Prop)
    (e : Error) : Prop
  | identifier {x} : x ∈ names → b.lookup x = .error e → Blames b names performs e
  | operation {op vs} : performs op vs → op.apply vs = .error e → Blames b names performs e

-- How an evaluation ends.
inductive Ends (b : Bindings) (t : Term) : Except Error Number → Prop
  | value (v) : Ends b t (.ok v)
  | undefined {x} :
    x ∈ t.identifiers → b.get? x = none → Ends b t (.error (.undefinedIdentifier x))
  | reserved {x} :
    x ∈ t.identifiers → isConstantName x → Ends b t (.error (.reservedIdentifier x))
  | refused {op vs v rel n} :
    Performs b t op vs → op.Refuses vs v rel n → Ends b t (.error (.domain (.number v) rel n))
  -- A real is divided by a number other than zero that is zero in fixed point.
  | lost {v w vs} :
    Performs b t .div (v :: w :: vs) → v.isReal → ¬(Number.product (w :: vs)).IsZero →
      (Number.product (w :: vs)).toFixed.units = 0 → Ends b t (.error .divisionByZero)
  -- A real is negated whose leading digit is beyond the limit of negations.
  | overflow {x} :
    Performs b t .sub [.real x] → Fixed.negationLimit < (-x).toDecimal.leadingExponent →
      Ends b t (.error .overflow)

variable {b : Bindings} {op : Operator} {vs : List Number} {e : Error}

mutual

theorem Performs.wellFormed (hb : b.WellFormed) {t : Term} : Performs b t op vs → t.WellFormed →
    op.arity.Accepts vs.length ∧ ∀ v ∈ vs, v.WellFormed
  | .self h, .operation ha hts     =>
    ⟨(length_of_evalAll h).symm ▸ ha, wellFormed_evalAll hb _ hts h⟩
  | .operand h, .operation _ hts => h.wellFormed hb hts

theorem PerformsAll.wellFormed (hb : b.WellFormed) {ts : List Term} : PerformsAll b ts op vs →
    (∀ t ∈ ts, t.WellFormed) → op.arity.Accepts vs.length ∧ ∀ v ∈ vs, v.WellFormed
  | .head h, hts   => h.wellFormed hb (List.forall_mem_cons.1 hts).1
  | .tail _ h, hts => h.wellFormed hb (List.forall_mem_cons.1 hts).2

end

theorem Blames.imp {names names' : List String} {p q : Operator → List Number → Prop}
    (hn : names ⊆ names') (hp : ∀ op vs, p op vs → q op vs) :
    Blames b names p e → Blames b names' q e
  | identifier h he => identifier (hn h) he
  | operation h he  => operation (hp _ _ h) he

mutual

theorem blames_of_eval : (t : Term) → t.eval b = .error e → Blames b t.identifiers (Performs b t) e
  | literal _, h       => by cases h
  | identifier x, h    => .identifier List.mem_cons_self h
  | operation op ts, h => by
    obtain h | ⟨vs, hvs, h⟩ := Except.bind_eq_error.1 h
    case inl => exact (blames_of_evalAll ts h).imp (List.Subset.refl _) fun _ _ => .operand
    case inr => exact .operation (.self hvs) h

theorem blames_of_evalAll : (ts : List Term) → evalAll b ts = .error e →
    Blames b (identifiersAll ts) (PerformsAll b ts) e
  | [], h      => by cases h
  | t :: ts, h => by
    obtain h | ⟨v, hv, h⟩ := Except.bind_eq_error.1 h
    case inl => exact (blames_of_eval t h).imp (List.subset_append_left ..) fun _ _ => .head
    case inr =>
      obtain h | ⟨_, _, h⟩ := Except.bind_eq_error.1 h
      case inl => exact (blames_of_evalAll ts h).imp (List.subset_append_right ..) fun _ _ => .tail hv
      case inr => cases h

end

theorem Ends.of_lookup {t : Term} {x : String} (hx : x ∈ t.identifiers) (h : b.lookup x = .error e) :
    t.Ends b (.error e) := by
  unfold Bindings.lookup at h
  split at h
  case isTrue hc  =>
    cases h
    exact .reserved hx hc
  case isFalse hc =>
    cases hg : b.get? x <;> rw [hg] at h <;> cases h
    exact .undefined hx hg

theorem Ends.of_fails {t : Term} (hp : Performs b t op vs)
    (hw : ∀ v rel n, op.Refuses vs v rel n → v.Writable) (h : op.Fails vs e) : t.Ends b (.error e) := by
  cases h
  case refused v rel n h =>
    rw [Error.ofOperand, if_pos (hw v rel n h)]
    exact .refused hp h
  case lost hr hz hl     => exact .lost hp hr hz hl
  case overflow hx       => exact .overflow hp hx

theorem eval_neg_of_negate_error {x : Fixed} (h : x.negate = .error .overflow) :
    (operation .sub [literal (.real x)]).eval b = .error .overflow := by
  rw [eval_neg rfl, Number.neg, h]
  rfl

-- Behind a negation that fails no operation is made.
theorem performs_of_negate_error {x : Fixed} {t : Term} (h : x.negate = .error .overflow) :
    Performs b (operation .add [operation .sub [literal (.real x)], t]) op vs → op = .sub ∧ vs = [.real x]
  | .self hvs                      => by
    obtain ⟨_, _, he, _⟩ := evalAll_cons_eq_ok.1 hvs
    cases (eval_neg_of_negate_error h).symm.trans he
  | .operand (.head (.self hvs))   => by
    cases hvs
    exact ⟨rfl, rfl⟩
  | .operand (.head (.operand hp)) => by rcases hp with hp | ⟨_, hp⟩ <;> cases hp
  | .operand (.tail he _)          => by cases (eval_neg_of_negate_error h).symm.trans he

-- Operators are never short of operands, and no decimal is refused in place of a number. The logarithm of
-- binary numbers is any function that makes nothing but one zero.
theorem eval_ends {t : Term} (hz : Fixed.LogZeroOnlyAtOne) (ht : t.Reached) (hb : b.WellFormed)
    (hw : ∀ op vs v rel n, Performs b t op vs → op.Refuses vs v rel n → v.Writable)
    (hr : ∀ op vs, Performs b t op vs → op.InRange vs) : t.Ends b (t.eval b) := by
  cases h : t.eval b
  case ok v    => exact .value v
  case error e =>
    cases blames_of_eval t h
    case identifier x hx h  => exact .of_lookup hx h
    case operation op vs hp h =>
      have ⟨ha, hvs⟩ := hp.wellFormed hb ht.wellFormed
      have hf := Operator.fails_of_apply hz hvs ha (hr op vs hp) h
      exact .of_fails hp (fun v rel n => hw op vs v rel n hp) hf

end

open scoped Binary64.Rounded

-- After a substitution and a fold an exponential is divided by zero.
theorem eval_ends_zeroDivisor :
    let t := operation .div [operation .exp [literal (.integer 3)], literal (.integer 0)]
    let b := Bindings.empty.insert "x" (.integer 2)
    Fixed.LogZeroOnlyAtOne ∧ t.Reached ∧ b.WellFormed ∧
      t.eval b = .error (.domain (.number (.integer 0)) .differentFrom 0) ∧ t.Ends b (t.eval b) := by
  intro t b
  have hb : b.WellFormed := Bindings.wellFormed_empty.insert (by decide) "x"
  have ht : t.Reached := by
    let given (u : Term) := operation .div
      [operation .exp [operation .add [u, literal (.integer 1)]],
        operation .sub [u, literal (.integer 2)]]
    have hr : ofTokens ["(", "/", "(", "exp", "(", "+", "x", "1", ")", ")",
        "(", "-", "x", "2", ")", ")"] = .ok (given (identifier "x")) := by decide +kernel
    have hs : (given (identifier "x")).substitute b = .ok (given (literal (.integer 2))) := by
      decide +kernel
    have hf : (given (literal (.integer 2))).foldInnermost b = .ok (t, 2) := by decide +kernel
    exact .folded hb (.substituted hb (.read hr) hs) hf
  have he : ∀ op vs, Performs b (operation .exp [literal (.integer 3)]) op vs →
      op = .exp ∧ vs = [.integer 3] := by
    rintro op vs (h | (h | ⟨_, h⟩)) <;> cases h
    exact ⟨rfl, rfl⟩
  have hp : ∀ op vs, Performs b t op vs →
      (op = .exp ∧ vs = [.integer 3]) ∨ ∃ v, op = .div ∧ vs = [v, .integer 0] := by
    subst t
    rintro op vs (h | (h | ⟨_, h | ⟨_, h⟩⟩))
    · obtain ⟨v, _, _, h₀, rfl⟩ := evalAll_cons_eq_ok.1 h
      cases h₀
      exact .inr ⟨v, rfl, rfl⟩
    · exact .inl (he op vs h)
    all_goals cases h
  have hy : (Decimal.log10E * (Number.integer 3).toFixed.toDecimal).PowerInRange :=
    ⟨by decide +kernel, by decide +kernel, by decide +kernel, by decide +kernel⟩
  have hz := Fixed.logZeroOnlyAtOne_rounded
  refine ⟨hz, ht, hb, by decide +kernel, eval_ends hz ht hb ?written ?range⟩
  case written =>
    intro op vs v rel n h hv
    obtain ⟨rfl, rfl⟩ | ⟨_, rfl, rfl⟩ := hp op vs h <;> cases hv <;> decide +kernel
  case range   =>
    intro op vs h
    obtain ⟨rfl, rfl⟩ | ⟨_, rfl, rfl⟩ := hp op vs h
    · rintro _ (_ | _)
      exact hy
    · exact nofun

-- A power of ten that is read, and a sum of its negative and itself: it is in range, but not negated.
theorem eval_of_negated_power :
    let x : Fixed := ⟨tenTo 1000015⟩
    let t := operation .add [operation .sub [literal (.real x)], literal (.real x)]
    ofTokens ["(", "+", "(", "-", "1e1000000", ")", "1e1000000", ")"] = .ok t ∧
      Fixed.LogZeroOnlyAtOne ∧ t.Reached ∧ Bindings.empty.WellFormed ∧
      (∀ op vs v rel n, Performs .empty t op vs → op.Refuses vs v rel n → v.Writable) ∧
      (∀ op vs, Performs .empty t op vs → op.InRange vs) ∧
      (Decimal.scaled 1 1000000).InRange ∧ (Decimal.scaled (-1) 1000000).InRange ∧
      t.eval .empty = .error .overflow := by
  intro x t
  have hr : ofTokens ["(", "+", "(", "-", "1e1000000", ")", "1e1000000", ")"] = .ok t := by
    decide +kernel
  have hn : x.negate = .error .overflow := Fixed.negate_tenTo (by decide)
  have he : t.eval .empty = .error .overflow := by
    rw [eval, evalAll, eval_neg_of_negate_error hn]
    rfl
  refine ⟨hr, Fixed.logZeroOnlyAtOne_rounded, .read hr, Bindings.wellFormed_empty, ?written, ?range,
    by decide +kernel, by decide +kernel, he⟩
  case written =>
    intro op vs v rel n hp hv
    obtain ⟨rfl, rfl⟩ := performs_of_negate_error hn hp
    cases hv
  case range   =>
    intro op vs hp
    obtain ⟨rfl, rfl⟩ := performs_of_negate_error hn hp
    exact nofun

end TermReduction.Term
