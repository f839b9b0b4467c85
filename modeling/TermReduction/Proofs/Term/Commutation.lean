import TermReduction.Proofs.Term.Folding
import TermReduction.Proofs.Term.Substitution

/-!
Substitution and folding in either order. It makes no difference whether an innermost operation meets its
identifiers or the values in their place. A substitution that fails does so at the leftmost identifier
without a value.
-/

namespace TermReduction

variable {b c : Bindings} {e : Error}

namespace Bindings

variable {x : String}

-- Why an identifier has no value, if it has none.
def fault? (b : Bindings) (x : String) : Option Error :=
  match b.lookup x with
  | .ok _    => none
  | .error e => some e

theorem fault?_eq_some : b.fault? x = some e ↔ b.lookup x = .error e := by
  cases h : b.lookup x <;> simp [fault?, h]

theorem fault?_eq_none : b.fault? x = none ↔ isConstantName x = false ∧ ∃ v, b.get? x = some v := by
  have hv : b.fault? x = none ↔ ∃ v, b.lookup x = .ok v := by
    cases h : b.lookup x <;> simp [fault?, h]
  simp only [hv, lookup_eq_ok_iff, exists_and_left]

theorem lookup_failsFor (b : Bindings) (x : String) : (b.lookup x).FailsFor (b.fault? x) := by
  cases h : b.lookup x
  case ok v    =>
    rw [fault?, h]
    exact ⟨v, rfl⟩
  case error e =>
    rw [fault?, h]
    exact rfl

end Bindings

namespace Term

mutual

theorem substitute_failsFor (b : Bindings) :
    (t : Term) → (substitute b t).FailsFor (t.identifiers.findSome? b.fault?)
  | literal v       => ⟨literal v, rfl⟩
  | identifier x    => by
    rw [identifiers, List.findSome?_singleton]
    exact (b.lookup_failsFor x).map
  | operation op ts => (substituteAll_failsFor b ts).map

theorem substituteAll_failsFor (b : Bindings) :
    (ts : List Term) → (substituteAll b ts).FailsFor ((identifiersAll ts).findSome? b.fault?)
  | []      => ⟨[], rfl⟩
  | t :: ts => by
    have h : (substituteAll b (t :: ts)).FailsFor
        (t.identifiers.findSome? b.fault? <|> (identifiersAll ts).findSome? b.fault?) :=
      (substitute_failsFor b t).bind fun _ _ => (substituteAll_failsFor b ts).map
    rwa [Option.orElse_eq_orElse, Option.orElse_eq_or, ← List.findSome?_append] at h

end

variable {t u : Term} {ts us : List Term}

theorem exists_substitute_iff : (∃ u, substitute b t = .ok u) ↔
    ∀ x ∈ t.identifiers, isConstantName x = false ∧ ∃ v, b.get? x = some v := by
  rw [(substitute_failsFor b t).ok_iff, List.findSome?_eq_none_iff]
  simp only [Bindings.fault?_eq_none]

theorem substitute_eq_error_iff : substitute b t = .error e ↔
    ∃ xs x ys, t.identifiers = xs ++ x :: ys ∧
      (∀ y ∈ xs, isConstantName y = false ∧ ∃ v, b.get? y = some v) ∧ b.lookup x = .error e := by
  rw [(substitute_failsFor b t).error_iff, List.findSome?_eq_some_iff]
  simp only [Bindings.fault?_eq_none, Bindings.fault?_eq_some, and_comm]

mutual

theorem Substitutes.substitute_eq {t u : Term} : Substitutes b t u → substitute b t = .ok u
  | .literal _    => rfl
  | .identifier h => substitute_identifier_eq_ok.2 ⟨_, h, rfl⟩
  | .operation hs => substitute_operation_eq_ok.2 ⟨_, hs.substituteAll_eq, rfl⟩

theorem SubstitutesAll.substituteAll_eq {ts us : List Term} :
    SubstitutesAll b ts us → substituteAll b ts = .ok us
  | .nil       => rfl
  | .cons h hs => substituteAll_cons_eq_ok.2 ⟨_, _, h.substitute_eq, hs.substituteAll_eq, rfl⟩

end

theorem Substitutes.exists_value (h : Substitutes b t u) :
    ∀ x ∈ t.identifiers, isConstantName x = false ∧ ∃ v, b.get? x = some v :=
  exists_substitute_iff.1 ⟨u, h.substitute_eq⟩

theorem SubstitutesAll.isInnermost_eq (op : Operator) (h : SubstitutesAll b ts us) :
    (operation op us).isInnermost = (operation op ts).isInnermost := by
  rw [Bool.eq_iff_iff, isInnermost_iff, isInnermost_iff, h.heightAll_eq]

section

variable [Binary64.Elementary]

-- What a substituted term evaluates to, whatever the bindings are then.
theorem Substitutes.eval_eq (c : Bindings) (h : Substitutes b t u) : u.eval c = t.eval b :=
  calc u.eval c
    _ = u.eval b := eval_of_identifiers_eq_nil h.identifiers_eq c b
    _ = t.eval b := h.simplifies.eval_eq

-- Folding brings no identifiers in, so those that are left have values as well.
theorem Substitutes.exists_substitute_fold {f : Term} {n : Nat} (h : Substitutes b t u)
    (hf : foldInnermost b t = .ok (f, n)) : ∃ g, substitute b f = .ok g := by
  refine exists_substitute_iff.2 fun x hx => h.exists_value x ?_
  exact (folds_of_eq_ok t hf).simplifies.identifiers_sublist.subset hx

mutual

-- An innermost operation has the same value on both ways. Elsewhere the identifiers that folding has left
-- are replaced afterwards.
theorem Substitutes.foldInnermost_eq (c : Bindings) {t u : Term} : Substitutes b t u →
    foldInnermost c u = foldInnermost b t >>= fun p => (substitute b p.1).map (·, p.2)
  | .literal v    => rfl
  | .identifier h => by simp [foldInnermost, substitute, h, Except.map]
  | @Substitutes.operation _ op ts us hs => by
    have hu := hs.isInnermost_eq op
    cases hi : (Term.operation op ts).isInnermost
    case true  =>
      have he : (operation op us).eval c = (operation op ts).eval b :=
        Substitutes.eval_eq c (.operation hs)
      rw [foldInnermost_of_isInnermost hi, foldInnermost_of_isInnermost (hu.trans hi), he]
      cases (Term.operation op ts).eval b <;> rfl
    case false =>
      rw [foldInnermost_of_not_isInnermost hi, foldInnermost_of_not_isInnermost (hu.trans hi),
        hs.foldInnermostAll_eq c]
      cases foldInnermostAll b ts
      case error => rfl
      case ok p  =>
        simp only [Except.ok_bind, substitute]
        cases substituteAll b p.1 <;> rfl

theorem SubstitutesAll.foldInnermostAll_eq (c : Bindings) {ts us : List Term} : SubstitutesAll b ts us →
    foldInnermostAll c us = foldInnermostAll b ts >>= fun p => (substituteAll b p.1).map (·, p.2)
  | .nil       => rfl
  | @SubstitutesAll.cons _ t _ ts _ h hs => by
    rw [foldInnermostAll, foldInnermostAll, h.foldInnermost_eq c, hs.foldInnermostAll_eq c]
    cases ht : foldInnermost b t
    case error => rfl
    case ok p  =>
      obtain ⟨g, hg⟩ := h.exists_substitute_fold ht
      cases foldInnermostAll b ts
      case error => simp [hg, Except.map]
      case ok q  =>
        simp only [Except.ok_bind, hg, Except.map, substituteAll, Except.pure_eq_ok]
        cases substituteAll b q.1 <;> rfl

end

-- Identifiers may be replaced before the innermost operations are folded, or looked up by them and replaced
-- afterwards: the term, the number of operations and the error are the same. They can be replaced if all of
-- them are bound and none is the name of a constant, and else the leftmost one of which this is not so is
-- to blame.
theorem substitution_commutes_with_folding (t : Term) (b : Bindings) :
    (∀ u, t.substitute b = .ok u →
      (∀ e, t.foldInnermost b = .error e → ∀ c, u.foldInnermost c = .error e) ∧
      ∀ f n, t.foldInnermost b = .ok (f, n) →
        ∃ g, f.substitute b = .ok g ∧ ∀ c, u.foldInnermost c = .ok (g, n)) ∧
    ((∃ u, t.substitute b = .ok u) ↔
      ∀ x ∈ t.identifiers, isConstantName x = false ∧ ∃ v, b.get? x = some v) ∧
    ∀ e, t.substitute b = .error e ↔
      ∃ xs x ys, t.identifiers = xs ++ x :: ys ∧
        (∀ y ∈ xs, isConstantName y = false ∧ ∃ v, b.get? y = some v) ∧ b.lookup x = .error e := by
  refine ⟨fun u hu => ?square, exists_substitute_iff, fun e => substitute_eq_error_iff⟩
  case square =>
    have hs := substitutes_of_eq_ok t hu
    refine ⟨fun e he c => ?error, fun f n hf => ?value⟩
    case error => rw [hs.foldInnermost_eq c, he, Except.error_bind]
    case value =>
      obtain ⟨g, hg⟩ := hs.exists_substitute_fold hf
      refine ⟨g, hg, fun c => ?_⟩
      rw [hs.foldInnermost_eq c, hf, Except.ok_bind, hg]
      rfl

end

open scoped Binary64.Rounded

-- The difference is folded beside identifiers that stay, and the quotient is refused on both ways. Of two
-- identifiers without a value the first is to blame, though it is below the other one.
theorem substitution_commutes_with_folding_zeroDivisor :
    let x := Term.identifier "x"
    let y := Term.identifier "y"
    let two := Term.literal (.integer 2)
    let half := Term.literal (.rational ⟨1, 2⟩)
    let zero := Term.literal (.integer 0)
    let t := operation .add [operation .div [x, operation .sub [y, y]], y]
    let u := operation .add [operation .div [half, operation .sub [two, two]], two]
    let f := operation .add [operation .div [x, zero], y]
    let g := operation .add [operation .div [half, zero], two]
    let b := (Bindings.empty.insert "x" (.rational ⟨1, 2⟩)).insert "y" (.integer 2)
    let e := Error.domain (.number (.integer 0)) .differentFrom 0
    (t.substitute b = .ok u ∧ t.foldInnermost b = .ok (f, 1) ∧ f.substitute b = .ok g ∧
      u.foldInnermost .empty = .ok (g, 1)) ∧
      (f.foldInnermost b = .error e ∧ g.foldInnermost .empty = .error e) ∧
        t.substitute .empty = .error (.undefinedIdentifier "x") := by
  intro x y two half zero t u f g b e
  have hu : t.substitute b = .ok u := by decide +kernel
  have hf : t.foldInnermost b = .ok (f, 1) := by decide +kernel
  have hg : f.substitute b = .ok g := by decide +kernel
  have he : f.foldInnermost b = .error e := by decide +kernel
  obtain ⟨h, hh, hc⟩ := ((substitution_commutes_with_folding t b).1 u hu).2 f 1 hf
  cases hg.symm.trans hh
  have hd := ((substitution_commutes_with_folding f b).1 g hg).1 e he .empty
  have hx := ((substitution_commutes_with_folding t .empty).2.2 (.undefinedIdentifier "x")).2
    ⟨[], "x", ["y", "y", "y"], rfl, nofun, rfl⟩
  exact ⟨⟨hu, hf, hg, hc .empty⟩, ⟨he, hd⟩, hx⟩

end Term

end TermReduction
