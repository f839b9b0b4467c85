import Mathlib.Algebra.GroupWithZero.Nat
import TermReduction.Proofs.Reduction.Run
import TermReduction.Proofs.Term.Innermost
import TermReduction.Proofs.Term.WellFormed
import TermReduction.Reduction.History

/-!
Paths of a reduction: steps that succeed, one after the other. What a step keeps is kept along a path,
and what a step gets done adds up.
-/

namespace TermReduction

namespace Phase

-- What a step does to the phase that it is made in.
structure Advances (phase : Phase) (s : Step) : Prop where
  before   : s.before = phase
  le       : phase ≤ s.after
  replaced : s.after ≠ symbolic
  changes  : s.changesPhase = decide (s.after ≠ s.before)

variable {phase : Phase} {t : Term} {b : Bindings} {s : Step}

theorem after_ne_symbolic (t : Term) : after t ≠ symbolic := by
  cases h : t.isLiteral <;> simp [after, h]

theorem reducing_le_after (t : Term) : reducing ≤ after t := by
  cases h : t.isLiteral <;> simp only [after, h] <;> decide

variable [Binary64.Elementary]

theorem step_advances (h : phase.step t b = .ok s) : phase.Advances s := by
  have ⟨ha, _⟩ := step_eq_ok.1 h
  cases phase
  case done =>
    cases done_act_eq_ok.1 ha
    exact { before := rfl, le := Nat.le_refl _, replaced := nofun, changes := rfl }
  case symbolic =>
    have ⟨u, _, he⟩ := symbolic_act_eq_ok.1 ha
    cases he
    exact {
      before   := rfl
      le       := Nat.zero_le _
      replaced := after_ne_symbolic u
      changes  := (decide_eq_true (after_ne_symbolic u)).symm
    }
  case reducing =>
    have ⟨u, n, _, he⟩ := reducing_act_eq_ok.1 ha
    cases he
    exact {
      before   := rfl
      le       := reducing_le_after u
      replaced := after_ne_symbolic u
      changes  := rfl
    }

theorem step_simplifies (h : phase.step t b = .ok s) : t.Simplifies b s.term :=
  (act_simplifies (step_eq_ok.1 h).1).2

-- The operations that are gone from the term are those that the step has folded.
theorem step_size (h : phase.step t b = .ok s) : s.folds + s.term.size = t.size := by
  have ⟨ha, _⟩ := step_eq_ok.1 h
  cases phase
  case done =>
    cases done_act_eq_ok.1 ha
    exact Nat.zero_add _
  case symbolic =>
    have ⟨u, hu, he⟩ := symbolic_act_eq_ok.1 ha
    cases he
    rw [← (Term.substitutes_of_eq_ok t hu).size_eq]
    exact Nat.zero_add _
  case reducing =>
    have ⟨u, n, hu, he⟩ := reducing_act_eq_ok.1 ha
    cases he
    rw [← (Term.folds_of_eq_ok t hu).size_eq]
    exact Nat.add_comm _ _

end Phase

namespace Reduction

variable [Binary64.Elementary]

-- `r.Path ss r'` holds when the steps `ss` succeed one after the other and lead from `r` to `r'`.
inductive Path : Reduction → List Step → Reduction → Prop
  | nil (r) : Path r [] r
  | cons {r s ss r'} :
    r.phase.step r.root r.bindings = .ok s → Path (r.advance s) ss r' → Path r (s :: ss) r'

variable {r r' r'' : Reduction} {ss ss' : List Step} {s : Step}

theorem Fits.follows_advance (hf : r.Fits) (hs : r.phase.step r.root r.bindings = .ok s) :
    r.Follows (r.advance s) :=
  hf.follows (next_eq_ok.2 ⟨s, hs, rfl, rfl⟩)

namespace Path

theorem append (h : r.Path ss r') (h' : r'.Path ss' r'') : r.Path (ss ++ ss') r'' := by
  induction h
  case nil          => exact h'
  case cons hs _ ih => exact cons hs (ih h')

-- What every step keeps is kept along a path.
theorem keeps {P : Reduction → Prop}
    (hP : ∀ {r s}, r.phase.step r.root r.bindings = .ok s → P r → P (r.advance s))
    (h : r.Path ss r') (hr : P r) : P r' := by
  induction h
  case nil          => exact hr
  case cons hs _ ih => exact ih (hP hs hr)

theorem bindings (h : r.Path ss r') : r'.bindings = r.bindings :=
  h.keeps (P := (·.bindings = r.bindings)) (fun _ hb => hb) rfl

theorem limit (h : r.Path ss r') : r'.limit = r.limit :=
  h.keeps (P := (·.limit = r.limit)) (fun _ hl => hl) rfl

theorem fits (h : r.Path ss r') (hf : r.Fits) : r'.Fits :=
  h.keeps (fun hs hf => (hf.follows_advance hs).fits) hf

theorem phase_le (h : r.Path ss r') : r.phase ≤ r'.phase :=
  h.keeps (P := (r.phase ≤ ·.phase)) (fun hs hle => Nat.le_trans hle (Phase.step_advances hs).le)
    (Nat.le_refl _)

theorem aritiesAccepted (h : r.Path ss r') (ha : r.root.AritiesAccepted) :
    r'.root.AritiesAccepted :=
  h.keeps (P := (·.root.AritiesAccepted)) (fun hs ha => ha.simplifies (Phase.step_simplifies hs)) ha

theorem wellFormed (h : r.Path ss r') (hb : r.bindings.WellFormed) (ht : r.root.WellFormed) :
    r'.root.WellFormed := by
  refine (h.keeps (P := fun r => r.bindings.WellFormed ∧ r.root.WellFormed) ?step ⟨hb, ht⟩).2
  case step =>
    intro r s hs ⟨hb, ht⟩
    exact ⟨hb, (Phase.step_simplifies hs).wellFormed hb ht⟩

theorem iterate (h : r.Path ss r') :
    Phase.iterate r.bindings ss.length (r.phase, r.root) = .ok (r'.phase, r'.root) := by
  induction h
  case nil          => rfl
  case cons hs _ ih =>
    rw [List.length_cons, Phase.iterate, hs]
    exact ih

theorem stepsLeft (h : r.Path ss r') (hf : r.Fits) :
    r'.root.stepsLeft = r.root.stepsLeft - ss.length := by
  induction h
  case nil          => rfl
  case cons hs _ ih =>
    have ⟨hf, _, _, hl⟩ := hf.follows_advance hs
    rw [ih hf, hl, List.length_cons]
    omega

-- The operations that have been folded and those that are left are those of the start.
theorem size (h : r.Path ss r') : (ss.map Step.folds).sum + r'.root.size = r.root.size := by
  induction h
  case nil          => exact Nat.zero_add _
  case cons hs _ ih =>
    rw [List.map_cons, List.sum_cons, ← Phase.step_size hs, Nat.add_assoc, ih]
    rfl

theorem advances (h : r.Path ss r') : ∀ s ∈ ss, s.before.Advances s := by
  induction h
  case nil          => exact List.forall_mem_nil _
  case cons hs _ ih =>
    have ha := Phase.step_advances hs
    exact List.forall_mem_cons.2 ⟨ha.before ▸ ha, ih⟩

-- The last step has led to where the path ends.
theorem last (h : r.Path ss r') : ∀ s ∈ ss.getLast?, r'.phase = s.after ∧ r'.root = s.term := by
  induction h
  case nil               => exact nofun
  case cons ss _ hs h ih =>
    cases ss
    case nil  =>
      cases h
      simp [advance]
    case cons => simpa [List.getLast?_cons_cons] using ih

theorem eq_nil_of_symbolic (h : r.Path ss r') (hp : r'.phase = .symbolic) : ss = [] := by
  cases hl : ss.getLast?
  case none   => exact List.getLast?_eq_none_iff.1 hl
  case some s =>
    have hs : s.after = .symbolic := (h.last s hl).1 ▸ hp
    exact absurd hs (h.advances s (List.mem_of_getLast? hl)).replaced

end Path

end Reduction

end TermReduction
