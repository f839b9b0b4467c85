import TermReduction.Proofs.Term.Folding
import TermReduction.Proofs.Term.Substitution
import TermReduction.Reduction.Step

/-!
One step simplifies a term. In the phase that the term itself calls for, it leads to the phase that
the new term calls for, and there is one step less to go.
-/

namespace TermReduction

namespace Term

-- The number of steps to the value of a term: one for all of its identifiers, and one for each level
-- of operations.
def stepsLeft (t : Term) : Nat :=
  if t.hasIdentifier then t.height + 1 else t.height

theorem hasIdentifier_eq_false {t : Term} : t.hasIdentifier = false ↔ t.identifiers = [] := by
  simp [hasIdentifier]

theorem isLiteral_iff {t : Term} : t.isLiteral ↔ ∃ v, t = literal v := by
  cases t <;> simp [isLiteral]

theorem stepsLeft_le (t : Term) : t.stepsLeft ≤ t.height + 1 := by
  cases h : t.hasIdentifier <;> simp [stepsLeft, h]

theorem stepsLeft_eq_height {t : Term} (h : t.identifiers = []) : t.stepsLeft = t.height := by
  simp [stepsLeft, hasIdentifier_eq_false.2 h]

theorem stepsLeft_eq_succ {t : Term} (h : t.hasIdentifier) : t.stepsLeft = t.height + 1 :=
  if_pos h

theorem stepsLeft_eq_zero {t : Term} : t.stepsLeft = 0 ↔ t.isLiteral := by
  cases t
  case literal v       => simp [stepsLeft, hasIdentifier, identifiers, height, isLiteral]
  case identifier x    => simp [stepsLeft, hasIdentifier, identifiers, isLiteral]
  case operation op ts => cases h : (operation op ts).hasIdentifier <;>
      simp [stepsLeft, h, height, isLiteral]

end Term

namespace Phase

variable {b : Bindings} {t : Term} {s : Step} {phase : Phase}

theorem initial_eq_done : initial t = done ↔ t.isLiteral := by
  cases hl : t.isLiteral <;> cases hi : t.hasIdentifier <;> simp [initial, hl, hi]

theorem initial_eq_symbolic : initial t = symbolic ↔ t.hasIdentifier := by
  cases t
  case literal v       => simp [initial, Term.isLiteral, Term.hasIdentifier, Term.identifiers]
  case identifier x    => simp [initial, Term.isLiteral, Term.hasIdentifier, Term.identifiers]
  case operation op ts => simp [initial, Term.isLiteral]

theorem initial_eq_reducing :
    initial t = reducing ↔ t.isLiteral = false ∧ t.hasIdentifier = false := by
  cases hl : t.isLiteral <;> cases hi : t.hasIdentifier <;> simp [initial, hl, hi]

theorem after_eq_initial (h : t.identifiers = []) : after t = initial t := by
  simp [after, initial, Term.hasIdentifier_eq_false.2 h]

section

variable [Binary64.Elementary]

theorem done_act_eq_ok : done.act t b = .ok s ↔ ⟨.nothing, done, done, t, t⟩ = s := by
  simp [act]

theorem symbolic_act_eq_ok : symbolic.act t b = .ok s ↔
    ∃ u, t.substitute b = .ok u ∧ ⟨.substituted, symbolic, after u, t, u⟩ = s := by
  simp [act, Except.bind_eq_ok]

theorem reducing_act_eq_ok : reducing.act t b = .ok s ↔
    ∃ u n, t.foldInnermost b = .ok (u, n) ∧ ⟨.folded n, reducing, after u, t, u⟩ = s := by
  simp [act, Except.bind_eq_ok]

theorem step_eq_ok :
    phase.step t b = .ok s ↔ phase.act t b = .ok s ∧ s.source.Writable ∧ s.term.Writable := by
  simp only [step, Except.bind_eq_ok]
  constructor
  case mp =>
    intro ⟨a, ha, h⟩
    split at h
    case isTrue hw =>
      cases h
      exact ⟨ha, hw⟩
    case isFalse => cases h
  case mpr => exact fun ⟨ha, hw⟩ => ⟨s, ha, if_pos hw⟩

theorem act_simplifies (h : phase.act t b = .ok s) : s.source = t ∧ t.Simplifies b s.term := by
  cases phase
  case done =>
    cases done_act_eq_ok.1 h
    exact ⟨rfl, .refl t⟩
  case symbolic =>
    have ⟨u, hu, he⟩ := symbolic_act_eq_ok.1 h
    cases he
    exact ⟨rfl, (Term.substitutes_of_eq_ok t hu).simplifies⟩
  case reducing =>
    have ⟨u, n, hu, he⟩ := reducing_act_eq_ok.1 h
    cases he
    exact ⟨rfl, (Term.folds_of_eq_ok t hu).simplifies⟩

theorem identifiers_symbolic_act (h : symbolic.act t b = .ok s) : s.term.identifiers = [] := by
  have ⟨u, hu, he⟩ := symbolic_act_eq_ok.1 h
  cases he
  exact (Term.substitutes_of_eq_ok t hu).identifiers_eq

-- Substitution leaves no identifier, and folding brings none in.
theorem identifiers_initial_act (hp : initial t ≠ done) (h : (initial t).act t b = .ok s) :
    s.term.identifiers = [] := by
  cases hi : initial t
  case done     => exact absurd hi hp
  case symbolic => exact identifiers_symbolic_act (hi ▸ h)
  case reducing =>
    have ht : t.identifiers = [] := Term.hasIdentifier_eq_false.1 (initial_eq_reducing.1 hi).2
    exact List.sublist_nil.1 (ht ▸ (act_simplifies h).2.identifiers_sublist)

-- The phase behind a step, for which identifiers are not looked for, is the one that the new term
-- calls for, since there are none.
theorem initial_act (h : (initial t).act t b = .ok s) :
    s.after = initial s.term ∧ s.term.stepsLeft = t.stepsLeft - 1 := by
  cases hp : initial t
  case done =>
    cases done_act_eq_ok.1 (hp ▸ h)
    have hz : t.stepsLeft = 0 := Term.stepsLeft_eq_zero.2 (initial_eq_done.1 hp)
    exact ⟨hp.symm, by simp [hz]⟩
  case symbolic =>
    have hi : s.term.identifiers = [] := identifiers_initial_act (by simp [hp]) h
    have ⟨u, hu, he⟩ := symbolic_act_eq_ok.1 (hp ▸ h)
    cases he
    refine ⟨after_eq_initial hi, ?_⟩
    rw [Term.stepsLeft_eq_height hi, (Term.substitutes_of_eq_ok t hu).height_eq,
      Term.stepsLeft_eq_succ (initial_eq_symbolic.1 hp), Nat.add_sub_cancel]
  case reducing =>
    have hi : s.term.identifiers = [] := identifiers_initial_act (by simp [hp]) h
    have ht : t.identifiers = [] := Term.hasIdentifier_eq_false.1 (initial_eq_reducing.1 hp).2
    have ⟨u, n, hu, he⟩ := reducing_act_eq_ok.1 (hp ▸ h)
    cases he
    refine ⟨after_eq_initial hi, ?_⟩
    rw [Term.stepsLeft_eq_height hi, Term.stepsLeft_eq_height ht,
      (Term.folds_of_eq_ok t hu).height_eq]

-- In whatever phase, a step fails only where evaluation fails as well.
theorem exists_act {v : Number} (h : t.eval b = .ok v) : ∃ s, phase.act t b = .ok s := by
  cases phase
  case done     => exact ⟨_, done_act_eq_ok.2 rfl⟩
  case symbolic =>
    obtain ⟨u, hu⟩ := Term.exists_substitute t h
    exact ⟨_, symbolic_act_eq_ok.2 ⟨u, hu, rfl⟩⟩
  case reducing =>
    obtain ⟨u, n, hu⟩ := Term.exists_foldInnermost t h
    exact ⟨_, reducing_act_eq_ok.2 ⟨u, n, hu, rfl⟩⟩

theorem exists_step {v : Number} (h : t.eval b = .ok v) (hw : t.ValuesWritable b) :
    ∃ s, phase.step t b = .ok s := by
  have ⟨s, hs⟩ : ∃ s, phase.act t b = .ok s := exists_act h
  have ⟨he, hu⟩ := act_simplifies hs
  have hsource : s.source.Writable := he ▸ hw.writable
  have hterm : s.term.Writable := (hw.simplifies hu).writable
  exact ⟨s, step_eq_ok.2 ⟨hs, hsource, hterm⟩⟩

theorem step_congr {c : Bindings} (h : ∀ x ∈ t.identifiers, b.lookup x = c.lookup x) :
    phase.step t b = phase.step t c := by
  cases phase <;>
    simp only [step, act, Term.substitute_congr t h, Term.foldInnermost_congr t h]

-- A step keeps what the term evaluates to, a value or an error, whether or not its phase is the one
-- that the term calls for. Behind a substitution bindings do not matter any more.
theorem eval_step (h : phase.step t b = .ok s) :
    s.term.eval b = t.eval b ∧
      (phase = symbolic → s.term.hasIdentifier = false ∧ ∀ c, s.term.eval c = t.eval b) := by
  have ⟨ha, _⟩ := step_eq_ok.1 h
  have ⟨_, hs⟩ := act_simplifies ha
  refine ⟨hs.eval_eq, ?symbolic⟩
  case symbolic =>
    intro hp
    have hi : s.term.identifiers = [] := identifiers_symbolic_act (hp ▸ ha)
    have hc : ∀ c, s.term.eval c = t.eval b := fun c =>
      calc s.term.eval c
        _ = s.term.eval b := Term.eval_of_identifiers_eq_nil hi c b
        _ = t.eval b      := hs.eval_eq
    exact ⟨Term.hasIdentifier_eq_false.2 hi, hc⟩

end

open scoped Binary64.Rounded

-- A folding that does not fit the term leaves the unbound name on the left in front of the zero
-- divisor, and a substitution leaves the zero divisor, whatever is bound later.
theorem eval_step_errors :
    let one := Term.literal (.integer 1)
    let t := Term.operation .add [.identifier "y", .operation .div [one, .operation .sub [one, one]]]
    let u := Term.operation .add [.identifier "y", .operation .div [one, .literal (.integer 0)]]
    let w := Term.operation .add [one, .operation .div [one, .operation .sub [one, one]]]
    let b := Bindings.empty.insert "y" (.integer 1)
    (reducing.step t .empty = .ok ⟨.folded 1, reducing, reducing, t, u⟩ ∧
      u.eval .empty = .error (.undefinedIdentifier "y")) ∧
      symbolic.step t b = .ok ⟨.substituted, symbolic, reducing, t, w⟩ ∧ w.hasIdentifier = false ∧
        w.eval .empty = .error (.domain (.number (.integer 0)) .differentFrom 0) := by
  intro one t u w b
  have hu : reducing.step t .empty = .ok ⟨.folded 1, reducing, reducing, t, u⟩ := by decide +kernel
  have hw : symbolic.step t b = .ok ⟨.substituted, symbolic, reducing, t, w⟩ := by decide +kernel
  have hy : t.eval .empty = .error (.undefinedIdentifier "y") := by decide +kernel
  have hz : t.eval b = .error (.domain (.number (.integer 0)) .differentFrom 0) := by decide +kernel
  have ⟨hi, hc⟩ := (eval_step hw).2 rfl
  exact ⟨⟨hu, (eval_step hu).1.trans hy⟩, hw, hi, (hc .empty).trans hz⟩

end Phase

end TermReduction
