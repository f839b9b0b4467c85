import TermReduction.Proofs.Except
import TermReduction.Term.Evaluation
import TermReduction.Term.Text

/-!
The parts of a term, and the numbers that come up on the way to its value.
-/

namespace TermReduction.Term

mutual

-- A term and all terms within it.
def subterms : Term → List Term
  | literal v       => [literal v]
  | identifier x    => [identifier x]
  | operation op ts => operation op ts :: subtermsAll ts

def subtermsAll : List Term → List Term
  | []      => []
  | t :: ts => subterms t ++ subtermsAll ts

end

theorem mem_subterms_self (t : Term) : t ∈ t.subterms := by
  cases t <;> simp [subterms]

mutual

theorem literal_mem_subterms {v : Number} : (t : Term) → v ∈ t.literals → literal v ∈ t.subterms
  | literal w, h       => by simpa [literals, subterms] using h
  | operation op ts, h => List.mem_cons_of_mem _ (literal_mem_subtermsAll ts h)

theorem literal_mem_subtermsAll {v : Number} :
    (ts : List Term) → v ∈ literalsAll ts → literal v ∈ subtermsAll ts
  | t :: ts, h => by
    simp only [literalsAll, subtermsAll, List.mem_append] at h ⊢
    exact h.imp (literal_mem_subterms t) (literal_mem_subtermsAll ts)

end

variable [Binary64.Elementary]

-- Every value of a part of the term is short enough to be written: that of a literal, of an
-- identifier and of an operation.
def ValuesWritable (b : Bindings) (t : Term) : Prop :=
  ∀ s ∈ t.subterms, ∀ v, s.eval b = .ok v → v.Writable

instance (b : Bindings) (t : Term) : Decidable (∀ v, t.eval b = .ok v → v.Writable) :=
  match h : t.eval b with
  | .ok v    => decidable_of_iff v.Writable (by simp)
  | .error _ => isTrue nofun

instance (b : Bindings) : DecidablePred (ValuesWritable b) :=
  fun t => inferInstanceAs (Decidable (∀ s ∈ t.subterms, ∀ v, s.eval b = .ok v → v.Writable))

theorem ValuesWritable.writable {b : Bindings} {t : Term} (h : t.ValuesWritable b) : t.Writable :=
  fun v hv => h (literal v) (literal_mem_subterms t hv) v rfl

theorem eval_operation_eq_ok {b : Bindings} {op : Operator} {ts : List Term} {v : Number} :
    (operation op ts).eval b = .ok v ↔ ∃ vs, evalAll b ts = .ok vs ∧ op.apply vs = .ok v :=
  Except.bind_eq_ok

theorem evalAll_cons_eq_ok {b : Bindings} {t : Term} {ts : List Term} {vs : List Number} :
    evalAll b (t :: ts) = .ok vs ↔
      ∃ w ws, t.eval b = .ok w ∧ evalAll b ts = .ok ws ∧ w :: ws = vs := by
  simp [evalAll, Except.bind_eq_ok]

theorem length_of_evalAll {b : Bindings} {ts : List Term} {vs : List Number}
    (h : evalAll b ts = .ok vs) : vs.length = ts.length := by
  induction ts generalizing vs
  case nil =>
    cases h
    rfl
  case cons ih =>
    obtain ⟨_, ws, _, hs, rfl⟩ := evalAll_cons_eq_ok.1 h
    rw [List.length_cons, List.length_cons, ih hs]

section Agreement

variable {b c : Bindings}

mutual

-- Bindings matter only through the identifiers of the term.
theorem eval_congr :
    (t : Term) → (∀ x ∈ t.identifiers, b.lookup x = c.lookup x) → t.eval b = t.eval c
  | literal _, _       => rfl
  | identifier x, h    => h x List.mem_cons_self
  | operation op ts, h => by rw [eval, eval, evalAll_congr ts h]

theorem evalAll_congr : (ts : List Term) → (∀ x ∈ identifiersAll ts, b.lookup x = c.lookup x) →
    evalAll b ts = evalAll c ts
  | [], _      => rfl
  | t :: ts, h => by
    have ⟨ht, hs⟩ := List.forall_mem_append.1 h
    rw [evalAll, evalAll, eval_congr t ht, evalAll_congr ts hs]

end

theorem eval_of_identifiers_eq_nil {t : Term} (h : t.identifiers = []) (b c : Bindings) :
    t.eval b = t.eval c :=
  eval_congr t (by simp [h])

end Agreement

end TermReduction.Term
