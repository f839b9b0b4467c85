import TermReduction.Proofs.Term.Simplification
import TermReduction.Term.Evaluation

/-!
Substitution is a simplification that leaves no identifier. It succeeds on every term that has a
value.
-/

namespace TermReduction.Term

mutual

-- The term behind a substitution that has succeeded.
inductive Substitutes (b : Bindings) : Term → Term → Prop
  | literal (v) : Substitutes b (.literal v) (.literal v)
  | identifier {x v} : b.lookup x = .ok v → Substitutes b (.identifier x) (.literal v)
  | operation {op ts us} :
    SubstitutesAll b ts us → Substitutes b (.operation op ts) (.operation op us)

inductive SubstitutesAll (b : Bindings) : List Term → List Term → Prop
  | nil : SubstitutesAll b [] []
  | cons {t u ts us} :
    Substitutes b t u → SubstitutesAll b ts us → SubstitutesAll b (t :: ts) (u :: us)

end

variable {b : Bindings}

theorem substitute_identifier_eq_ok {x : String} {u : Term} :
    substitute b (identifier x) = .ok u ↔ ∃ v, b.lookup x = .ok v ∧ literal v = u := by
  cases h : b.lookup x <;> simp [substitute, h, Except.map]

theorem substitute_operation_eq_ok {op : Operator} {ts : List Term} {u : Term} :
    substitute b (operation op ts) = .ok u ↔
      ∃ us, substituteAll b ts = .ok us ∧ operation op us = u := by
  cases h : substituteAll b ts <;> simp [substitute, h, Except.map]

theorem substituteAll_cons_eq_ok {t : Term} {ts us : List Term} :
    substituteAll b (t :: ts) = .ok us ↔
      ∃ w ws, substitute b t = .ok w ∧ substituteAll b ts = .ok ws ∧ w :: ws = us := by
  simp [substituteAll, Except.bind_eq_ok]

mutual

theorem substitutes_of_eq_ok {u : Term} : (t : Term) → substitute b t = .ok u → Substitutes b t u
  | literal v, h => by
    cases h
    exact .literal v
  | identifier x, h => by
    have ⟨v, hv, hu⟩ := substitute_identifier_eq_ok.1 h
    exact hu ▸ .identifier hv
  | operation op ts, h => by
    have ⟨us, hs, hu⟩ := substitute_operation_eq_ok.1 h
    exact hu ▸ .operation (substitutesAll_of_eq_ok ts hs)

theorem substitutesAll_of_eq_ok {us : List Term} :
    (ts : List Term) → substituteAll b ts = .ok us → SubstitutesAll b ts us
  | [], h => by
    cases h
    exact .nil
  | t :: ts, h => by
    have ⟨w, ws, hw, hs, hu⟩ := substituteAll_cons_eq_ok.1 h
    exact hu ▸ .cons (substitutes_of_eq_ok t hw) (substitutesAll_of_eq_ok ts hs)

end

mutual

theorem substitute_congr {c : Bindings} : (t : Term) →
    (∀ x ∈ t.identifiers, b.lookup x = c.lookup x) → substitute b t = substitute c t
  | literal _, _       => rfl
  | identifier x, h    => by rw [substitute, substitute, h x List.mem_cons_self]
  | operation op ts, h => by rw [substitute, substitute, substituteAll_congr ts h]

theorem substituteAll_congr {c : Bindings} : (ts : List Term) →
    (∀ x ∈ identifiersAll ts, b.lookup x = c.lookup x) → substituteAll b ts = substituteAll c ts
  | [], _      => rfl
  | t :: ts, h => by
    have ⟨ht, hs⟩ := List.forall_mem_append.1 h
    rw [substituteAll, substituteAll, substitute_congr t ht, substituteAll_congr ts hs]

end

mutual

theorem Substitutes.identifiers_eq {t u : Term} : Substitutes b t u → u.identifiers = []
  | .literal _ | .identifier _ => rfl
  | .operation hs              => hs.identifiersAll_eq

theorem SubstitutesAll.identifiersAll_eq {ts us : List Term} :
    SubstitutesAll b ts us → identifiersAll us = []
  | .nil       => rfl
  | .cons h hs => by simp [identifiersAll, h.identifiers_eq, hs.identifiersAll_eq]

end

mutual

-- A value is not nested deeper than the identifier it stands for.
theorem Substitutes.height_eq {t u : Term} : Substitutes b t u → u.height = t.height
  | .literal _ | .identifier _ => rfl
  | .operation hs              => by rw [height, height, hs.heightAll_eq]

theorem SubstitutesAll.heightAll_eq {ts us : List Term} :
    SubstitutesAll b ts us → heightAll us = heightAll ts
  | .nil       => rfl
  | .cons h hs => by rw [heightAll, heightAll, h.height_eq, hs.heightAll_eq]

end

mutual

theorem Substitutes.size_eq {t u : Term} : Substitutes b t u → u.size = t.size
  | .literal _ | .identifier _ => rfl
  | .operation hs              => by rw [size, size, hs.sizeAll_eq]

theorem SubstitutesAll.sizeAll_eq {ts us : List Term} :
    SubstitutesAll b ts us → sizeAll us = sizeAll ts
  | .nil       => rfl
  | .cons h hs => by rw [sizeAll, sizeAll, h.size_eq, hs.sizeAll_eq]

end

variable [Binary64.Elementary]

mutual

theorem exists_substitute {v : Number} : (t : Term) → t.eval b = .ok v → ∃ u, substitute b t = .ok u
  | literal w, _       => ⟨literal w, rfl⟩
  | identifier _, h    => ⟨literal v, substitute_identifier_eq_ok.2 ⟨v, h, rfl⟩⟩
  | operation op ts, h =>
    have ⟨_, hs, _⟩ := eval_operation_eq_ok.1 h
    have ⟨us, hu⟩ := exists_substituteAll ts hs
    ⟨operation op us, substitute_operation_eq_ok.2 ⟨us, hu, rfl⟩⟩

theorem exists_substituteAll {vs : List Number} :
    (ts : List Term) → evalAll b ts = .ok vs → ∃ us, substituteAll b ts = .ok us
  | [], _      => ⟨[], rfl⟩
  | t :: ts, h =>
    have ⟨_, _, ht, hs, _⟩ := evalAll_cons_eq_ok.1 h
    have ⟨u, hu⟩ := exists_substitute t ht
    have ⟨us, hus⟩ := exists_substituteAll ts hs
    ⟨u :: us, substituteAll_cons_eq_ok.2 ⟨u, us, hu, hus, rfl⟩⟩

end

mutual

theorem Substitutes.simplifies {t u : Term} : Substitutes b t u → Simplifies b t u
  | .literal v    => .refl (literal v)
  | .identifier h => .value h
  | .operation hs => .operation hs.simplifiesAll

theorem SubstitutesAll.simplifiesAll {ts us : List Term} :
    SubstitutesAll b ts us → SimplifiesAll b ts us
  | .nil       => .nil
  | .cons h hs => .cons h.simplifies hs.simplifiesAll

end

end TermReduction.Term
