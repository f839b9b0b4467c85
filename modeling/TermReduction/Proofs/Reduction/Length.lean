import TermReduction.Proofs.Reduction.History

/-!
The length of a reduction in which no step fails: one step for all identifiers and one for each level
of operations, no matter how the steps are spread over runs.
-/

namespace TermReduction

-- None of the first `n` steps of the reduction of a term fails.
def Term.Unfailing [Binary64.Elementary] (t : Term) (b : Bindings) (n : Nat) : Prop :=
  ∀ k < n, ∀ phase u, Phase.iterate b k (.initial t, t) = .ok (phase, u) → phase ≠ .done →
    ∃ s, phase.step u b = .ok s

instance : (x : Except Error Step) → Decidable (∃ s, x = .ok s)
  | .ok s    => isTrue ⟨s, rfl⟩
  | .error _ => isFalse nofun

instance [Binary64.Elementary] (b : Bindings) : (x : Except Error (Phase × Term)) →
    Decidable (∀ phase u, x = .ok (phase, u) → phase ≠ .done → ∃ s, phase.step u b = .ok s)
  | .ok (phase, u) =>
    decidable_of_iff (phase ≠ .done → ∃ s, phase.step u b = .ok s)
      ⟨fun h _ _ he => by cases he; exact h, fun h => h phase u rfl⟩
  | .error _       => isTrue nofun

instance [Binary64.Elementary] (t : Term) (b : Bindings) (n : Nat) : Decidable (t.Unfailing b n) :=
  Nat.decidableBallLT n _

namespace Reduction

variable {t : Term} {b : Bindings} {limit : Int} {r : Reduction} {ss : List Step} {n : Nat}

theorem Fits.stepsLeft_eq_zero (hf : r.Fits) : r.root.stepsLeft = 0 ↔ r.phase = .done :=
  Term.stepsLeft_eq_zero.trans hf.phase_eq_done.symm

section

variable [Binary64.Elementary]

-- A run makes no step from its end.
theorem Fits.length_stepsFor_le (hf : r.Fits) : (r.stepsFor n).length ≤ r.root.stepsLeft := by
  induction n generalizing r
  case zero      => exact Nat.zero_le _
  case succ n ih =>
    by_cases hd : r.phase = .done
    case pos => simp [stepsFor_of_done hd]
    case neg =>
      match hs : r.phase.step r.root r.bindings with
      | .error e => simp [(runFor_of_step_error hd hs).1]
      | .ok s    =>
        have ⟨hfs, _, _, hl⟩ := hf.follows_advance hs
        have hne : r.root.stepsLeft ≠ 0 := mt hf.stepsLeft_eq_zero.1 hd
        have hle : ((r.advance s).stepsFor n).length ≤ (r.advance s).root.stepsLeft := ih hfs
        rw [(runFor_of_step_ok hd hs).1, List.length_cons]
        omega

-- A run that goes on behind the steps `ss` either arrives with the last step of all or is cut short.
theorem Path.runFor_unfailing (hp : (start t b limit).Path ss r)
    (h : t.Unfailing b (ss.length + n)) :
    (t.stepsLeft ≤ ss.length + n → (r.stepsFor n).length = t.stepsLeft - ss.length ∧
      r.runFor n = (.ok ((r.stepsFor n).map (·.term.tokens)), (r.runFor n).2) ∧
        (r.runFor n).2.phase = .done) ∧
    (ss.length + n < t.stepsLeft → (r.stepsFor n).length = n ∧
      r.runFor n = (.error (.stepLimit r.limit), (r.runFor n).2)) := by
  have ⟨hr, he⟩ := runFor_ends r n
  have hall : (start t b limit).Path (ss ++ r.stepsFor n) (r.runFor n).2 := hp.append hr
  have hl : (r.stepsFor n).length ≤ r.root.stepsLeft := (hp.fits rfl).length_stepsFor_le
  have hr : r.root.stepsLeft = t.stepsLeft - ss.length := hp.stepsLeft rfl
  have hr' : (r.runFor n).2.root.stepsLeft = t.stepsLeft - (ss ++ r.stepsFor n).length :=
    hall.stepsLeft rfl
  have hz := (hall.fits rfl).stepsLeft_eq_zero
  have hi := hall.iterate
  rw [List.length_append] at hr' hi
  generalize r.runFor n = x at *
  cases he with
  | done hd hle =>
    have := hz.2 hd
    exact ⟨fun _ => ⟨by omega, rfl, hd⟩, fun _ => by omega⟩
  | limit hd hle =>
    have := mt hz.1 hd
    exact ⟨fun _ => by omega, fun _ => ⟨hle, rfl⟩⟩
  | failure hd hle he =>
    have ⟨s, hs⟩ := h _ (Nat.add_lt_add_left hle _) _ _ hi hd
    rw [hall.bindings] at he
    exact nomatch hs.symm.trans he

-- The operations of a term are those that have been folded behind its value.
theorem Path.sum_folds (hp : (start t b limit).Path ss r) (hd : r.phase = .done) :
    (ss.map Step.folds).sum = t.size := by
  have ⟨v, hv⟩ := Term.isLiteral_iff.1 ((hp.fits rfl).phase_eq_done.1 hd)
  have hs : (ss.map Step.folds).sum + r.root.size = t.size := hp.size
  rw [hv] at hs
  exact hs

-- Behind any calls, of which there may be none, a run makes as many steps as are missing from
-- `t.stepsLeft` if its limit `m` admits them, and otherwise exactly `m`, behind which another run can
-- go on. Each folding folds the innermost operations and nothing else.
theorem run_takes_stepsLeft (t : Term) (b : Bindings) (m : Nat) (cs : List Call) :
    let r := start t b m
    let k := (r.history cs).length
    (t.Unfailing b (k + m) →
      (t.stepsLeft ≤ k + m → ∃ trace r', (r.callAll cs).run = (.ok trace, r') ∧
        trace.length = t.stepsLeft - k ∧ r'.phase = .done ∧
          ((r.history (cs ++ [.run])).map Step.folds).sum = t.size) ∧
      (k + m < t.stepsLeft → ∃ r', (r.callAll cs).run = (.error (.stepLimit m), r') ∧
        (r.history (cs ++ [.run])).length = k + m ∧
          Phase.iterate b (k + m) (.initial t, t) = .ok (r'.phase, r'.root))) ∧
      ∀ (c : Bindings) (u v : Term) (n : Nat),
        u.isOperation → u.foldInnermost c = .ok (v, n) → u.FoldsInnermost c v n := by
  intro r k
  have hp : r.Path (r.history cs) (r.callAll cs) := path_callAll r cs
  have hl : (r.callAll cs).limit = m := hp.limit
  have hrun : (r.callAll cs).run = (r.callAll cs).runFor m := by rw [run, hl]; rfl
  have hh : r.history (cs ++ [.run]) = r.history cs ++ (r.callAll cs).stepsFor m := by
    simp [history_append, history, stepsOf, hl]
  have hall := hp.append (runFor_ends (r.callAll cs) m).1
  refine ⟨fun h => ⟨?arrives, ?stopped⟩, ?folding⟩
  case arrives =>
    intro hle
    obtain ⟨hn, hr, hd⟩ := (hp.runFor_unfailing h).1 hle
    refine ⟨_, _, hrun.trans hr, ?_, hd, ?_⟩
    · rw [List.length_map, hn]
    · rw [hh]
      exact hall.sum_folds hd
  case stopped =>
    intro hlt
    obtain ⟨hn, hr⟩ := (hp.runFor_unfailing h).2 hlt
    have hi := hall.iterate
    rw [List.length_append, hn] at hi
    refine ⟨_, hrun.trans (hl ▸ hr), ?_, hi⟩
    rw [hh, List.length_append, hn]
  case folding =>
    intro c u v n hu h
    exact (Term.folds_of_eq_ok u h).foldsInnermost hu

end

open scoped Binary64.Rounded

-- One step for the identifier and one for each of three levels: a limit of three is one too low, and
-- the second run makes the step that is missing.
theorem run_takes_stepsLeft_twoRuns :
    let t := Term.operation .add [.operation .mul [.literal (.integer 2), .operation .sub
      [.literal (.integer 3)]], .identifier "x"]
    let b := Bindings.empty.insert "x" (.rational ⟨1, 2⟩)
    let r := start t b 3
    t.stepsLeft = 4 ∧ t.Unfailing b 6 ∧
      (∃ r', r.run = (.error (.stepLimit 3), r') ∧ r'.phase = .reducing) ∧
        (∃ trace r', (r.callAll [.run]).run = (.ok trace, r') ∧ trace.length = 1 ∧
          r'.phase = .done ∧ ((r.history [.run, .run]).map Step.folds).sum = 3) ∧
          ∃ u, t.foldInnermost b = .ok (u, 1) ∧ t.FoldsInnermost b u 1 := by
  intro t b r
  have hl : t.stepsLeft = 4 := by decide +kernel
  have hf : t.Unfailing b 6 := by decide +kernel
  obtain ⟨hfresh, hfold⟩ := run_takes_stepsLeft t b 3 []
  obtain ⟨r', hr, _⟩ := (hfresh (by decide +kernel)).2 (by decide +kernel)
  have hp : (r.callAll [.run]).phase = .reducing := by decide +kernel
  have hagain := (run_takes_stepsLeft t b 3 [.run]).1 (by decide +kernel)
  obtain ⟨trace, s, hs, hn, hd, hsum⟩ := hagain.1 (by decide +kernel)
  have hu : t.foldInnermost b = .ok (.operation .add [.operation .mul [.literal (.integer 2),
    .literal (.integer (-3))], .identifier "x"], 1) := by decide +kernel
  refine ⟨hl, hf, ⟨r', hr, ?_⟩, ⟨trace, s, hs, hn.trans (by decide +kernel), hd, ?_⟩, _, hu, ?_⟩
  · have he : r' = r.callAll [.run] := congrArg Prod.snd hr.symm
    rw [he, hp]
  · exact hsum.trans (by decide +kernel)
  · exact hfold b t _ 1 rfl hu

end Reduction

end TermReduction
