import TermReduction.Proofs.Number.WellFormed
import TermReduction.Proofs.Term.Simplification

/-!
Well-formed terms have well-formed values, and simplifying them leaves them well formed.
-/

namespace TermReduction.Term

-- Every operator has as many operands as it takes.
def AritiesAccepted (t : Term) : Prop :=
  ∀ op ts, operation op ts ∈ t.subterms → op.arity.Accepts ts.length

variable {b : Bindings}

theorem subtermsAll_eq (ts : List Term) : subtermsAll ts = ts.flatMap subterms := by
  induction ts
  case nil          => rfl
  case cons t ts ih => simp [subtermsAll, ih]

theorem WellFormed.subterm {t : Term} (h : t.WellFormed) : ∀ s ∈ t.subterms, s.WellFormed := by
  induction t with
  | literal v       => simpa [subterms]
  | identifier x    => simpa [subterms]
  | operation op ts ih =>
    intro s hs
    cases List.mem_cons.1 hs
    case inl hs => exact hs ▸ h
    case inr hs =>
      cases h with
      | operation _ hts =>
        rw [subtermsAll_eq] at hs
        have ⟨t, ht, hst⟩ := List.mem_flatMap.1 hs
        exact ih t ht (hts t ht) s hst

theorem WellFormed.aritiesAccepted {t : Term} (h : t.WellFormed) : t.AritiesAccepted := by
  intro op ts hm
  cases h.subterm _ hm with
  | operation ha _ => exact ha

variable [Binary64.Elementary]

mutual

theorem wellFormed_eval (hb : b.WellFormed) {v : Number} :
    (t : Term) → t.WellFormed → t.eval b = .ok v → v.WellFormed
  | literal _, .literal hv, h           => Except.ok.inj h ▸ hv
  | identifier _, _, h                  => hb.lookup h
  | operation _ ts, .operation _ hts, h =>
    have ⟨_, hvs, ha⟩ := eval_operation_eq_ok.1 h
    Operator.wellFormed_apply (wellFormed_evalAll hb ts hts hvs) ha

theorem wellFormed_evalAll (hb : b.WellFormed) {vs : List Number} : (ts : List Term) →
    (∀ t ∈ ts, t.WellFormed) → evalAll b ts = .ok vs → ∀ v ∈ vs, v.WellFormed
  | [], _, h        => by
    cases h
    exact List.forall_mem_nil _
  | t :: ts, hts, h => by
    have ⟨w, ws, hw, hws, he⟩ := evalAll_cons_eq_ok.1 h
    have ⟨ht, hts⟩ := List.forall_mem_cons.1 hts
    cases he
    exact List.forall_mem_cons.2 ⟨wellFormed_eval hb t ht hw, wellFormed_evalAll hb ts hts hws⟩

end

theorem SimplifiesAll.length_eq {ts us : List Term} (h : SimplifiesAll b ts us) :
    us.length = ts.length := by
  cases h
  case nil       => rfl
  case cons _ hs => exact congrArg (· + 1) hs.length_eq

mutual

theorem Simplifies.wellFormed (hb : b.WellFormed) {t u : Term} :
    Simplifies b t u → t.WellFormed → u.WellFormed
  | .refl _, ht                         => ht
  | .value h, ht                        => .literal (wellFormed_eval hb _ ht h)
  | .operation hs, .operation ha hts    =>
    .operation (hs.length_eq ▸ ha) (hs.wellFormed hb hts)

theorem SimplifiesAll.wellFormed (hb : b.WellFormed) {ts us : List Term} :
    SimplifiesAll b ts us → (∀ t ∈ ts, t.WellFormed) → ∀ u ∈ us, u.WellFormed
  | .nil, hts       => hts
  | .cons h hs, hts =>
    have ⟨ht, hts⟩ := List.forall_mem_cons.1 hts
    List.forall_mem_cons.2 ⟨h.wellFormed hb ht, hs.wellFormed hb hts⟩

end

-- Whatever the bindings: an operation that is left has the operands that it had, simplified.
theorem AritiesAccepted.simplifies {t u : Term} (ht : t.AritiesAccepted) (h : Simplifies b t u) :
    u.AritiesAccepted := by
  intro op us hm
  have ⟨r, hr, hru⟩ := h.subterm _ hm
  cases hru
  case refl         => exact ht op us hr
  case operation hs => exact hs.length_eq ▸ ht op _ hr

end TermReduction.Term
