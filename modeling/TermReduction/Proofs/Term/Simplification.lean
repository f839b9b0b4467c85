import TermReduction.Proofs.Term.Evaluation

/-!
Simplification of a term: some of its parts are replaced by their values. What the term evaluates to
stays, also when that is an error.
-/

namespace TermReduction.Term

variable [Binary64.Elementary]

mutual

inductive Simplifies (b : Bindings) : Term → Term → Prop
  | refl (t) : Simplifies b t t
  | value {t v} : t.eval b = .ok v → Simplifies b t (.literal v)
  | operation {op ts us} : SimplifiesAll b ts us → Simplifies b (.operation op ts) (.operation op us)

inductive SimplifiesAll (b : Bindings) : List Term → List Term → Prop
  | nil : SimplifiesAll b [] []
  | cons {t u ts us} : Simplifies b t u → SimplifiesAll b ts us → SimplifiesAll b (t :: ts) (u :: us)

end

variable {b : Bindings}

mutual

theorem Simplifies.eval_eq {t u : Term} : Simplifies b t u → u.eval b = t.eval b
  | .refl _       => rfl
  | .value h      => h.symm
  | .operation hs => by rw [eval, eval, hs.evalAll_eq]

theorem SimplifiesAll.evalAll_eq {ts us : List Term} :
    SimplifiesAll b ts us → evalAll b us = evalAll b ts
  | .nil       => rfl
  | .cons h hs => by rw [evalAll, evalAll, h.eval_eq, hs.evalAll_eq]

end

mutual

theorem Simplifies.identifiers_sublist {t u : Term} :
    Simplifies b t u → u.identifiers.Sublist t.identifiers
  | .refl _       => .refl _
  | .value _      => List.nil_sublist _
  | .operation hs => hs.identifiersAll_sublist

theorem SimplifiesAll.identifiersAll_sublist {ts us : List Term} :
    SimplifiesAll b ts us → (identifiersAll us).Sublist (identifiersAll ts)
  | .nil       => .refl _
  | .cons h hs => h.identifiers_sublist.append hs.identifiersAll_sublist

end

mutual

-- No part of the result is new: each is a part of the source that has been simplified.
theorem Simplifies.subterm {t u : Term} :
    Simplifies b t u → ∀ s ∈ u.subterms, ∃ r ∈ t.subterms, Simplifies b r s
  | .refl t, s, hs  => ⟨s, hs, .refl s⟩
  | .value h, s, hs => by
    rw [List.mem_singleton.1 hs]
    exact ⟨t, mem_subterms_self t, .value h⟩
  | .operation h, s, hs => by
    cases List.mem_cons.1 hs
    case inl hs =>
      rw [hs]
      exact ⟨_, mem_subterms_self _, .operation h⟩
    case inr hs =>
      have ⟨r, hr, hrs⟩ := h.subterm s hs
      exact ⟨r, List.mem_cons_of_mem _ hr, hrs⟩

theorem SimplifiesAll.subterm {ts us : List Term} :
    SimplifiesAll b ts us → ∀ s ∈ subtermsAll us, ∃ r ∈ subtermsAll ts, Simplifies b r s
  | .cons h h', s, hs => by
    simp only [subtermsAll, List.mem_append] at hs ⊢
    cases hs
    case inl hs =>
      have ⟨r, hr, hrs⟩ := h.subterm s hs
      exact ⟨r, .inl hr, hrs⟩
    case inr hs =>
      have ⟨r, hr, hrs⟩ := h'.subterm s hs
      exact ⟨r, .inr hr, hrs⟩

end

theorem ValuesWritable.simplifies {t u : Term} (hw : t.ValuesWritable b) (h : Simplifies b t u) :
    u.ValuesWritable b := by
  intro s hs v hv
  have ⟨r, hr, hrs⟩ := h.subterm s hs
  exact hw r hr v (hrs.eval_eq ▸ hv)

end TermReduction.Term
