import TermReduction.Proofs.Reduction.Step
import TermReduction.Reduction.Basic

/-!
A run of a reduction arrives at the value of its term, and it fails only where evaluation does, unless
it is cut short or meets an integer that is too long.
-/

namespace TermReduction.Reduction

-- The phase is the one that the root calls for.
def Fits (r : Reduction) : Prop :=
  r.phase = .initial r.root

theorem start_fits (t : Term) (b : Bindings) (limit : Int) : (start t b limit).Fits :=
  rfl

theorem Fits.phase_eq_done {r : Reduction} (hf : r.Fits) : r.phase = .done ↔ r.root.isLiteral :=
  hf ▸ Phase.initial_eq_done

section

variable [Binary64.Elementary]

-- What a step keeps, and what it gets done.
structure Follows (r r' : Reduction) : Prop where
  fits      : r'.Fits
  bindings  : r'.bindings = r.bindings
  root      : r.root.Simplifies r.bindings r'.root
  stepsLeft : r'.root.stepsLeft = r.root.stepsLeft - 1

variable {r r' : Reduction} {n : Nat} {v : Number}
variable {tokens : List String} {trace : List (List String)}

theorem next_eq_ok : r.next = (.ok tokens, r') ↔
    ∃ s, r.phase.step r.root r.bindings = .ok s ∧ s.term.tokens = tokens ∧ r.advance s = r' := by
  cases h : r.phase.step r.root r.bindings <;> simp [next, h]

namespace Fits

theorem follows (hf : r.Fits) (h : r.next = (.ok tokens, r')) : r.Follows r' := by
  have ⟨s, hs, _, hr⟩ := next_eq_ok.1 h
  have ⟨ha, _⟩ := Phase.step_eq_ok.1 hs
  have ⟨hp, hl⟩ := Phase.initial_act (hf ▸ ha)
  have ⟨_, hu⟩ := Phase.act_simplifies ha
  cases hr
  exact {
    fits      := hp
    bindings  := rfl
    root      := hu
    stepsLeft := hl
  }

theorem eval_of_done (hf : r.Fits) (h : r.phase = .done) :
    ∃ v, r.root = .literal v ∧ r.root.eval r.bindings = .ok v := by
  have ⟨v, hv⟩ := Term.isLiteral_iff.1 (hf.phase_eq_done.1 h)
  exact ⟨v, hv, hv ▸ rfl⟩

end Fits

theorem exists_next (hv : r.root.eval r.bindings = .ok v)
    (hw : r.root.ValuesWritable r.bindings) : ∃ tokens r', r.next = (.ok tokens, r') := by
  have ⟨s, hs⟩ : ∃ s, r.phase.step r.root r.bindings = .ok s := Phase.exists_step hv hw
  exact ⟨s.term.tokens, r.advance s, next_eq_ok.2 ⟨s, hs, rfl, rfl⟩⟩

theorem runFor_of_done (h : r.phase = .done) : r.runFor n = (.ok [], r) := by
  cases n <;> simp [runFor, h]

theorem runFor_zero (h : r.phase ≠ .done) : r.runFor 0 = (.error (.stepLimit r.limit), r) := by
  simp [runFor, h]

-- A run that succeeds begins with a step that succeeds, unless it is at its end from the start.
theorem runFor_succ_eq_ok (h : r.phase ≠ .done) : r.runFor (n + 1) = (.ok trace, r') ↔
    ∃ tokens s rest, r.next = (.ok tokens, s) ∧ s.runFor n = (.ok rest, r') ∧
      tokens :: rest = trace := by
  match hn : r.next with
  | (.error e, s)   => simp [runFor, h, hn]
  | (.ok tokens, s) => match hs : s.runFor n with
    | (.error e, s')  => simp [runFor, h, hn, hs, Except.map]
    | (.ok rest, s')  => simp [runFor, h, hn, hs, Except.map, and_assoc, and_comm]

theorem runFor_ok_of_done (hf : r.Fits) (hd : r.phase = .done) (h : r.runFor n = (.ok trace, r')) :
    ∃ v, r'.root = .literal v ∧ r.root.eval r.bindings = .ok v := by
  rw [runFor_of_done hd] at h
  cases h
  exact hf.eval_of_done hd

theorem runFor_ok (hf : r.Fits) (h : r.runFor n = (.ok trace, r')) :
    ∃ v, r'.root = .literal v ∧ r.root.eval r.bindings = .ok v := by
  induction n generalizing r trace
  case zero =>
    by_cases hd : r.phase = .done
    case pos => exact runFor_ok_of_done hf hd h
    case neg => simp [runFor_zero hd] at h
  case succ n ih =>
    by_cases hd : r.phase = .done
    case pos => exact runFor_ok_of_done hf hd h
    case neg =>
      have ⟨tokens, s, rest, hs, ht, _⟩ := (runFor_succ_eq_ok hd).1 h
      have ⟨hfs, hb, hr, _⟩ := hf.follows hs
      have ⟨v, hv, he⟩ := ih hfs ht
      exact ⟨v, hv, by rw [← hr.eval_eq, ← hb, he]⟩

-- The induction is on the steps that are allowed: each step that is made lowers the number of those
-- that are left, and keeps the value and the bound on all values.
theorem exists_runFor (hf : r.Fits) (hv : r.root.eval r.bindings = .ok v)
    (hw : r.root.ValuesWritable r.bindings) (hn : r.root.stepsLeft ≤ n) :
    ∃ trace r', r.runFor n = (.ok trace, r') := by
  induction n generalizing r
  case zero =>
    have hl : r.root.isLiteral := Term.stepsLeft_eq_zero.1 (Nat.le_zero.1 hn)
    exact ⟨[], r, runFor_of_done (hf.phase_eq_done.2 hl)⟩
  case succ n ih =>
    by_cases hd : r.phase = .done
    case pos => exact ⟨[], r, runFor_of_done hd⟩
    case neg =>
      have ⟨tokens, s, hs⟩ := exists_next hv hw
      have ⟨hfs, hb, hr, hl⟩ := hf.follows hs
      have hvs : s.root.eval s.bindings = .ok v := by rw [hb, hr.eval_eq, hv]
      have hws : s.root.ValuesWritable s.bindings := hb ▸ hw.simplifies hr
      have ⟨rest, r', ht⟩ := ih hfs hvs hws (by omega)
      exact ⟨tokens :: rest, r', (runFor_succ_eq_ok hd).2 ⟨tokens, s, rest, hs, ht, rfl⟩⟩

variable {t : Term} {b : Bindings} {limit : Int}

theorem eval_of_run (h : (start t b limit).run = (.ok trace, r)) :
    ∃ v, r.root = .literal v ∧ t.eval b = .ok v :=
  runFor_ok (start_fits t b limit) h

theorem exists_run (hw : t.ValuesWritable b) (hl : t.height + 1 ≤ limit) (hv : t.eval b = .ok v) :
    ∃ trace r, (start t b limit).run = (.ok trace, r) ∧ r.root = .literal v := by
  have hn : t.stepsLeft ≤ limit.toNat := by
    have := t.stepsLeft_le
    omega
  have ⟨trace, r, hr⟩ := exists_runFor (start_fits t b limit) hv hw hn
  have ⟨w, hw, he⟩ := eval_of_run hr
  rw [hv] at he
  cases he
  exact ⟨trace, r, hr, hw⟩

theorem run_error_iff (hw : t.ValuesWritable b) (hl : t.height + 1 ≤ limit) :
    (∃ e r, (start t b limit).run = (.error e, r)) ↔ ∃ e, t.eval b = .error e := by
  constructor
  case mp =>
    intro ⟨e, r, hr⟩
    match hv : t.eval b with
    | .error e => exact ⟨e, rfl⟩
    | .ok v    =>
      have ⟨_, _, hs, _⟩ := exists_run hw hl hv
      rw [hr] at hs
      cases hs
  case mpr =>
    intro ⟨e, he⟩
    match hr : (start t b limit).run with
    | (.error e, r)  => exact ⟨e, r, rfl⟩
    | (.ok trace, r) =>
      have ⟨_, _, hs⟩ := eval_of_run hr
      rw [he] at hs
      cases hs

-- What a run arrives at is the value of the term. It arrives if there is such a value, the limit is
-- above the height of the term, and no integer on the way is too long; so under these conditions it
-- fails on the terms without a value only, with whatever error it meets first.
theorem run_computes_eval (t : Term) (b : Bindings) (limit : Int) :
    (∀ trace r, (start t b limit).run = (.ok trace, r) → ∃ v, r.root = .literal v ∧ t.eval b = .ok v) ∧
      (t.ValuesWritable b → t.height + 1 ≤ limit →
        (∀ v, t.eval b = .ok v →
          ∃ trace r, (start t b limit).run = (.ok trace, r) ∧ r.root = .literal v) ∧
        ((∃ e r, (start t b limit).run = (.error e, r)) ↔ ∃ e, t.eval b = .error e)) := by
  refine ⟨fun _ _ => eval_of_run, fun hw hl => ⟨?complete, ?error⟩⟩
  case complete => exact fun _ hv => exists_run hw hl hv
  case error    => exact run_error_iff hw hl

end

open scoped Binary64.Rounded

-- One step for the identifier, and one for each of the two levels.
theorem run_computes_eval_two_levels :
    let t := Term.operation .add [.identifier "x", .operation .mul [.literal (.integer 2),
      .literal (.integer 3)]]
    let b := Bindings.empty.insert "x" (.rational ⟨1, 2⟩)
    t.ValuesWritable b ∧ t.height + 1 ≤ (3 : Int) ∧ t.eval b = .ok (.rational ⟨13, 2⟩) ∧
      ∃ trace r, (start t b 3).run = (.ok trace, r) ∧ r.root = .literal (.rational ⟨13, 2⟩) := by
  intro t b
  have hw : t.ValuesWritable b := by decide +kernel
  have hl : t.height + 1 ≤ (3 : Int) := by decide
  have hv : t.eval b = .ok (.rational ⟨13, 2⟩) := by decide +kernel
  exact ⟨hw, hl, hv, ((run_computes_eval t b 3).2 hw hl).1 _ hv⟩

end TermReduction.Reduction
