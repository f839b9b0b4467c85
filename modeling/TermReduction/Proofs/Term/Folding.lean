import TermReduction.Proofs.Term.Simplification
import TermReduction.Term.Evaluation

/-!
Folding is a simplification that takes one level off the operations of a term. It succeeds on every
term that has a value.
-/

namespace TermReduction.Term

theorem height_eq_zero {t : Term} : t.height = 0 ↔ t.isOperation = false := by
  cases t <;> simp [height, isOperation]

theorem heightAll_eq_zero {ts : List Term} :
    heightAll ts = 0 ↔ ∀ t ∈ ts, t.isOperation = false := by
  induction ts
  case nil           => simp [heightAll]
  case cons t ts ih => simp [heightAll, height_eq_zero, ih]

theorem isInnermost_iff {op : Operator} {ts : List Term} :
    (operation op ts).isInnermost ↔ heightAll ts = 0 := by
  simp [isInnermost, heightAll_eq_zero]

variable [Binary64.Elementary]

mutual

-- The term behind a folding that has succeeded, and the number of operations it has replaced.
inductive Folds (b : Bindings) : Term → Term → Nat → Prop
  | literal (v) : Folds b (.literal v) (.literal v) 0
  | identifier (x) : Folds b (.identifier x) (.identifier x) 0
  | innermost {op ts v} : (Term.operation op ts).isInnermost →
    (Term.operation op ts).eval b = .ok v → Folds b (.operation op ts) (.literal v) 1
  | operation {op ts us n} : (Term.operation op ts).isInnermost = false →
    FoldsAll b ts us n → Folds b (.operation op ts) (.operation op us) n

inductive FoldsAll (b : Bindings) : List Term → List Term → Nat → Prop
  | nil : FoldsAll b [] [] 0
  | cons {t u ts us m n} :
    Folds b t u m → FoldsAll b ts us n → FoldsAll b (t :: ts) (u :: us) (m + n)

end

variable {b : Bindings}

theorem foldInnermost_of_isInnermost {op : Operator} {ts : List Term}
    (h : (operation op ts).isInnermost) : foldInnermost b (operation op ts) =
      (operation op ts).eval b >>= fun v => .ok (literal v, 1) :=
  if_pos h

theorem foldInnermost_of_not_isInnermost {op : Operator} {ts : List Term}
    (h : (operation op ts).isInnermost = false) : foldInnermost b (operation op ts) =
      foldInnermostAll b ts >>= fun p => .ok (operation op p.1, p.2) :=
  if_neg (by simp [h])

theorem foldInnermostAll_cons_eq_ok {t : Term} {ts : List Term} {p : List Term × Nat} :
    foldInnermostAll b (t :: ts) = .ok p ↔
      ∃ u m us n, foldInnermost b t = .ok (u, m) ∧ foldInnermostAll b ts = .ok (us, n) ∧
        (u :: us, m + n) = p := by
  simp [foldInnermostAll, Except.bind_eq_ok]

mutual

theorem folds_of_eq_ok {u : Term} {n : Nat} :
    (t : Term) → foldInnermost b t = .ok (u, n) → Folds b t u n
  | literal v, h => by
    cases h
    exact .literal v
  | identifier x, h => by
    cases h
    exact .identifier x
  | operation op ts, h => by
    cases hi : (operation op ts).isInnermost
    case true =>
      rw [foldInnermost_of_isInnermost hi] at h
      have ⟨v, hv, hu⟩ := Except.bind_eq_ok.1 h
      cases hu
      exact .innermost hi hv
    case false =>
      rw [foldInnermost_of_not_isInnermost hi] at h
      have ⟨⟨us, m⟩, hs, hu⟩ := Except.bind_eq_ok.1 h
      cases hu
      exact .operation hi (foldsAll_of_eq_ok ts hs)

theorem foldsAll_of_eq_ok {us : List Term} {n : Nat} :
    (ts : List Term) → foldInnermostAll b ts = .ok (us, n) → FoldsAll b ts us n
  | [], h => by
    cases h
    exact .nil
  | t :: ts, h => by
    have ⟨u, m, us, n, hu, hs, he⟩ := foldInnermostAll_cons_eq_ok.1 h
    cases he
    exact .cons (folds_of_eq_ok t hu) (foldsAll_of_eq_ok ts hs)

end

mutual

theorem exists_foldInnermost {v : Number} :
    (t : Term) → t.eval b = .ok v → ∃ u n, foldInnermost b t = .ok (u, n)
  | literal w, _       => ⟨literal w, 0, rfl⟩
  | identifier x, _    => ⟨identifier x, 0, rfl⟩
  | operation op ts, h => by
    cases hi : (operation op ts).isInnermost
    case true =>
      refine ⟨literal v, 1, ?_⟩
      rw [foldInnermost_of_isInnermost hi, h]
      rfl
    case false =>
      have ⟨_, hs, _⟩ := eval_operation_eq_ok.1 h
      have ⟨us, n, hus⟩ := exists_foldInnermostAll ts hs
      refine ⟨operation op us, n, ?_⟩
      rw [foldInnermost_of_not_isInnermost hi, hus]
      rfl

theorem exists_foldInnermostAll {vs : List Number} :
    (ts : List Term) → evalAll b ts = .ok vs → ∃ us n, foldInnermostAll b ts = .ok (us, n)
  | [], _      => ⟨[], 0, rfl⟩
  | t :: ts, h =>
    have ⟨_, _, ht, hs, _⟩ := evalAll_cons_eq_ok.1 h
    have ⟨u, m, hu⟩ := exists_foldInnermost t ht
    have ⟨us, n, hus⟩ := exists_foldInnermostAll ts hs
    ⟨u :: us, m + n, foldInnermostAll_cons_eq_ok.2 ⟨u, m, us, n, hu, hus, rfl⟩⟩

end

mutual

theorem foldInnermost_congr {c : Bindings} : (t : Term) →
    (∀ x ∈ t.identifiers, b.lookup x = c.lookup x) → foldInnermost b t = foldInnermost c t
  | literal _, _ | identifier _, _ => rfl
  | operation op ts, h             => by
    cases hi : (operation op ts).isInnermost
    case true =>
      rw [foldInnermost_of_isInnermost hi, foldInnermost_of_isInnermost hi, eval_congr _ h]
    case false =>
      rw [foldInnermost_of_not_isInnermost hi, foldInnermost_of_not_isInnermost hi,
        foldInnermostAll_congr ts h]

theorem foldInnermostAll_congr {c : Bindings} : (ts : List Term) →
    (∀ x ∈ identifiersAll ts, b.lookup x = c.lookup x) →
      foldInnermostAll b ts = foldInnermostAll c ts
  | [], _      => rfl
  | t :: ts, h => by
    have ⟨ht, hs⟩ := List.forall_mem_append.1 h
    rw [foldInnermostAll, foldInnermostAll, foldInnermost_congr t ht, foldInnermostAll_congr ts hs]

end

mutual

theorem Folds.simplifies {t u : Term} {n : Nat} : Folds b t u n → Simplifies b t u
  | .literal v      => .refl (literal v)
  | .identifier x   => .refl (identifier x)
  | .innermost _ h  => .value h
  | .operation _ hs => .operation hs.simplifiesAll

theorem FoldsAll.simplifiesAll {ts us : List Term} {n : Nat} :
    FoldsAll b ts us n → SimplifiesAll b ts us
  | .nil       => .nil
  | .cons h hs => .cons h.simplifies hs.simplifiesAll

end

mutual

-- Every operation at the bottom of a chain of nested ones is innermost, so each chain gets shorter.
theorem Folds.height_eq {t u : Term} {n : Nat} : Folds b t u n → u.height = t.height - 1
  | .literal _ | .identifier _ => rfl
  | .innermost hi _            => by simp [height, isInnermost_iff.1 hi]
  | @Folds.operation _ _ _ ts _ _ hi hs => by
    have hne : heightAll ts ≠ 0 := fun h => by simp [isInnermost_iff.2 h] at hi
    rw [height, height, hs.heightAll_eq]
    omega

theorem FoldsAll.heightAll_eq {ts us : List Term} {n : Nat} :
    FoldsAll b ts us n → heightAll us = heightAll ts - 1
  | .nil       => rfl
  | .cons h hs => by
    rw [heightAll, heightAll, h.height_eq, hs.heightAll_eq]
    omega

end

end TermReduction.Term
