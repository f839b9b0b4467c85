import TermReduction.Proofs.Reduction.Path

/-!
Sequences of calls on a reduction. Behind them it stands where the steps that have succeeded lead to,
one after the other, whatever has failed in between.
-/

namespace TermReduction.Reduction

section

variable [Binary64.Elementary]

-- How a run of at most `n` steps ends after the steps `ss`, which have succeeded.
inductive Ends (r : Reduction) (n : Nat) (ss : List Step) :
    Except Error (List (List String)) × Reduction → Prop
  | done {r'} :
    r'.phase = .done → ss.length ≤ n → Ends r n ss (.ok (ss.map (·.term.tokens)), r')
  | limit {r'} :
    r'.phase ≠ .done → ss.length = n → Ends r n ss (.error (.stepLimit r.limit), r')
  | failure {r' e} :
    r'.phase ≠ .done → ss.length < n → r'.phase.step r'.root r'.bindings = .error e →
      Ends r n ss (.error e, r')

variable {r r' : Reduction} {n : Nat} {s : Step} {ss : List Step} {c : Call} {cs ds : List Call}
variable {e : Error} {trace : List (List String)}

theorem Ends.cons {o : Except Error (List (List String))} (h : Ends (r.advance s) n ss (o, r')) :
    Ends r (n + 1) (s :: ss) (o.map (s.term.tokens :: ·), r') := by
  cases h with
  | done hd hl       => exact .done hd (Nat.succ_le_succ hl)
  | limit hd hl      => exact .limit hd (congrArg (· + 1) hl)
  | failure hd hl he => exact .failure hd (Nat.succ_lt_succ hl) he

theorem stepsFor_of_done (h : r.phase = .done) : r.stepsFor n = [] := by
  cases n <;> simp [stepsFor, h]

theorem runFor_of_step_error (h : r.phase ≠ .done)
    (he : r.phase.step r.root r.bindings = .error e) :
    r.stepsFor (n + 1) = [] ∧ r.runFor (n + 1) = (.error e, r) := by
  simp [stepsFor, runFor, next, h, he]

theorem runFor_of_step_ok (h : r.phase ≠ .done) (hs : r.phase.step r.root r.bindings = .ok s) :
    r.stepsFor (n + 1) = s :: (r.advance s).stepsFor n ∧
      r.runFor (n + 1) = (((r.advance s).runFor n).1.map (s.term.tokens :: ·),
        ((r.advance s).runFor n).2) := by
  simp [stepsFor, runFor, next, h, hs]

-- The steps of a run are a path, and the outcome of the run says how the path has come to its end.
theorem runFor_ends (r : Reduction) (n : Nat) :
    r.Path (r.stepsFor n) (r.runFor n).2 ∧ r.Ends n (r.stepsFor n) (r.runFor n) := by
  induction n generalizing r
  case zero =>
    by_cases hd : r.phase = .done
    case pos =>
      rw [runFor_of_done hd]
      exact ⟨.nil r, .done hd (Nat.le_refl _)⟩
    case neg =>
      rw [runFor_zero hd]
      exact ⟨.nil r, .limit hd rfl⟩
  case succ n ih =>
    by_cases hd : r.phase = .done
    case pos =>
      rw [runFor_of_done hd, stepsFor_of_done hd]
      exact ⟨.nil r, .done hd (Nat.zero_le _)⟩
    case neg =>
      match hs : r.phase.step r.root r.bindings with
      | .error e =>
        have ⟨hss, hr⟩ := runFor_of_step_error (n := n) hd hs
        rw [hss, hr]
        exact ⟨.nil r, .failure hd (Nat.succ_pos n) hs⟩
      | .ok s    =>
        have ⟨hss, hr⟩ := runFor_of_step_ok (n := n) hd hs
        have ⟨hp, he⟩ := ih (r.advance s)
        rw [hss, hr]
        exact ⟨.cons hs hp, he.cons⟩

theorem path_call (r : Reduction) : (c : Call) → r.Path (r.stepsOf c) (r.call c).2
  | .run  => (runFor_ends r _).1
  | .next => by
    match hs : r.phase.step r.root r.bindings with
    | .error e => simpa [stepsOf, call, next, hs, Except.toOption] using Path.nil r
    | .ok s    => simpa [stepsOf, call, next, hs, Except.toOption] using Path.cons hs (.nil _)

-- What a call that succeeds answers is what its steps have led to.
theorem tokens_of_call (h : (r.call c).1 = .ok trace) : trace = (r.stepsOf c).map (·.term.tokens) := by
  cases c
  case next =>
    cases hs : r.phase.step r.root r.bindings
    case error e => simp [call, next, hs, Except.map] at h
    case ok s    =>
      simp only [call, next, hs, Except.map, Except.ok.injEq] at h
      simp [stepsOf, hs, Except.toOption, ← h]
  case run  =>
    obtain ⟨_, he⟩ := runFor_ends r r.limit.toNat
    rcases hr : r.runFor r.limit.toNat with ⟨e | t, r'⟩
    case error => simp [call, run, hr] at h
    case ok    =>
      simp only [call, run, hr, Except.ok.injEq] at h
      rw [hr] at he
      cases he
      exact h.symm

-- A call that fails stands in front of the step that has failed, or else it is a run that has made
-- as many steps as its limit admits.
theorem error_of_call (h : (r.call c).1 = .error e) :
    (r.call c).2.phase.step (r.call c).2.root r.bindings = .error e ∨
      c = .run ∧ e = .stepLimit r.limit ∧ (r.stepsOf c).length = r.limit.toNat := by
  cases c
  case next =>
    cases hs : r.phase.step r.root r.bindings
    case error e' =>
      simp only [call, next, hs, Except.map, Except.error.injEq] at h
      simp [call, next, hs, h]
    case ok s     => simp [call, next, hs, Except.map] at h
  case run  =>
    obtain ⟨hp, he⟩ := runFor_ends r r.limit.toNat
    have hb := hp.bindings
    rw [call, run] at h ⊢
    generalize r.runFor r.limit.toNat = x at *
    cases he with
    | done hd hl       => contradiction
    | limit hd hl      => exact .inr ⟨rfl, (Except.error.inj h).symm, hl⟩
    | failure hd hl he => exact .inl (hb ▸ Except.error.inj h ▸ he)

theorem path_callAll (r : Reduction) (cs : List Call) : r.Path (r.history cs) (r.callAll cs) := by
  induction cs generalizing r
  case nil          => exact .nil r
  case cons c cs ih => exact (path_call r c).append (ih _)

theorem callAll_append : r.callAll (cs ++ ds) = (r.callAll cs).callAll ds := by
  induction cs generalizing r
  case nil          => rfl
  case cons c cs ih => exact ih

theorem history_append : r.history (cs ++ ds) = r.history cs ++ (r.callAll cs).history ds := by
  induction cs generalizing r
  case nil          => rfl
  case cons c cs ih => rw [List.cons_append, history, history, ih, List.append_assoc, callAll]

-- What holds of a reduction that started with the term `t`, after the steps `ss` have succeeded.
structure Reached (t : Term) (b : Bindings) (ss : List Step) (r : Reduction) : Prop where
  iterate    : Phase.iterate b ss.length (.initial t, t) = .ok (r.phase, r.root)
  last       : ∀ s ∈ ss.getLast?, r.phase = s.after ∧ r.root = s.term
  -- The phase, which steps carry along, is the one that is found by looking at the root.
  fits       : r.phase = .initial r.root
  done       : r.phase = .done ↔ r.root.isLiteral
  symbolic   : r.phase = .symbolic ↔ r.root.hasIdentifier
  reducing   : r.phase = .reducing ↔ r.root.isLiteral = false ∧ r.root.hasIdentifier = false
  unstarted  : r.phase = .symbolic → ss = []
  arities    : r.root.AritiesAccepted
  forward    : ∀ s ∈ ss, s.before ≤ s.after
  transition : ∀ s ∈ ss, s.changesPhase = decide (s.after ≠ s.before)

theorem Path.reached {t : Term} {b : Bindings} {limit : Int} (h : (start t b limit).Path ss r)
    (ht : t.WellFormed) : Reached t b ss r := by
  have hf : r.phase = .initial r.root := h.fits (start_fits t b limit)
  exact {
    iterate    := h.iterate
    last       := h.last
    fits       := hf
    done       := hf ▸ Phase.initial_eq_done
    symbolic   := hf ▸ Phase.initial_eq_symbolic
    reducing   := hf ▸ Phase.initial_eq_reducing
    unstarted  := h.eq_nil_of_symbolic
    arities    := h.aritiesAccepted ht.aritiesAccepted
    forward    := fun s hs => (h.advances s hs).le
    transition := fun s hs => (h.advances s hs).changes
  }

-- Steps and runs may be called for in any order, and may succeed, fail on an operand or be cut short.
-- Behind each call the reduction stands behind exactly the steps that have succeeded, and it does not
-- go back to an earlier phase. A call that fails leaves it in front of the step that has failed, or
-- behind as many steps as the limit admits.
theorem reached_by_calls {t : Term} (ht : t.WellFormed) (b : Bindings) (limit : Int)
    (cs : List Call) :
    let r := (start t b limit).callAll cs
    Reached t b ((start t b limit).history cs) r ∧
      (∀ ds, r.phase ≤ (r.callAll ds).phase) ∧
        (∀ c trace, (r.call c).1 = .ok trace → trace = (r.stepsOf c).map (·.term.tokens)) ∧
          ∀ c e, (r.call c).1 = .error e →
            (r.call c).2.phase.step (r.call c).2.root b = .error e ∨
              c = .run ∧ e = .stepLimit limit ∧ (r.stepsOf c).length = limit.toNat := by
  intro r
  have hp : (start t b limit).Path ((start t b limit).history cs) r := path_callAll _ cs
  have hb : r.bindings = b := hp.bindings
  have hl : r.limit = limit := hp.limit
  refine ⟨hp.reached ht, ?forward, ?answers, ?failures⟩
  case forward  => exact fun ds => (path_callAll r ds).phase_le
  case answers  => exact fun _ _ => tokens_of_call
  case failures => exact fun _ _ h => hb ▸ hl ▸ error_of_call h

end

open scoped Binary64.Rounded

-- The first run is cut short behind the substitution. The calls behind the folding of the difference
-- fail on the zero divisor and leave it as it is.
theorem reached_by_calls_zeroDivisor :
    let two := Term.literal (.integer 2)
    let x := Term.identifier "x"
    let t := Term.operation .add [x, .operation .div [two, .operation .sub [x, x]]]
    let u := Term.operation .add [two, .operation .div [two, .literal (.integer 0)]]
    let b := Bindings.empty.insert "x" (.integer 2)
    let r := start t b 1
    let cs := [Call.run, .next, .next, .run]
    t.WellFormed ∧ (r.call .run).1 = .error (.stepLimit 1) ∧
      ((r.callAll [.run, .next]).call .next).1 =
        .error (.domain (.number (.integer 0)) .differentFrom 0) ∧
        (r.history cs).length = 2 ∧ (r.callAll cs).root = u ∧
          Phase.iterate b 2 (.symbolic, t) = .ok (.reducing, u) := by
  intro two x t u b r cs
  have ht : t.WellFormed := by decide +kernel
  have hl : (r.call .run).1 = .error (.stepLimit 1) := by decide +kernel
  have hz : ((r.callAll [.run, .next]).call .next).1 =
      .error (.domain (.number (.integer 0)) .differentFrom 0) := by decide +kernel
  have hn : (r.history cs).length = 2 := by decide +kernel
  have hp : (r.callAll cs).phase = .reducing := by decide +kernel
  have hu : (r.callAll cs).root = u := by decide +kernel
  have hr : Reached t b (r.history cs) (r.callAll cs) := (reached_by_calls ht b 1 cs).1
  have hi := hr.iterate
  rw [hn, hp, hu] at hi
  exact ⟨ht, hl, hz, hn, hu, hi⟩

end TermReduction.Reduction
