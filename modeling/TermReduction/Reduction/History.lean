import TermReduction.Reduction.Basic

/-!
A reduction under a sequence of calls, and its history: all steps that have succeeded, also those of a
run that has failed in the end.
-/

namespace TermReduction

namespace Phase

-- The place of a phase in the order in which a reduction goes through them.
def rank : Phase → Nat
  | symbolic => 0
  | reducing => 1
  | done     => 2

instance : LE Phase where
  le p q := p.rank ≤ q.rank

instance (p q : Phase) : Decidable (p ≤ q) :=
  inferInstanceAs (Decidable (p.rank ≤ q.rank))

-- The phase and the term behind a number of steps.
def iterate [Binary64.Elementary] (b : Bindings) : Nat → Phase × Term → Except Error (Phase × Term)
  | 0, p              => .ok p
  | n + 1, (phase, t) => do
    let s ← phase.step t b
    iterate b n (s.after, s.term)

end Phase

-- What a reduction can be asked for: a single step, or a run.
inductive Call
  | next
  | run

namespace Reduction

variable [Binary64.Elementary]

-- The outcome of a call, and the reduction behind it.
def call (r : Reduction) : Call → Except Error (List (List String)) × Reduction
  | .next =>
    let (outcome, r) := r.next
    (outcome.map ([·]), r)
  | .run  => r.run

-- The reduction behind a sequence of calls, whatever their outcomes.
def callAll (r : Reduction) : List Call → Reduction
  | []      => r
  | c :: cs => (r.call c).2.callAll cs

-- The steps that succeed in a run of at most `n` steps.
def stepsFor (r : Reduction) : Nat → List Step
  | 0     => []
  | n + 1 =>
    if r.phase = .done then []
    else
      match r.phase.step r.root r.bindings with
      | .error _ => []
      | .ok s    => s :: (r.advance s).stepsFor n

-- The steps that succeed in a call.
def stepsOf (r : Reduction) : Call → List Step
  | .next => (r.phase.step r.root r.bindings).toOption.toList
  | .run  => r.stepsFor r.limit.toNat

-- The steps that succeed in a sequence of calls.
def history (r : Reduction) : List Call → List Step
  | []      => []
  | c :: cs => r.stepsOf c ++ (r.call c).2.history cs

end Reduction

end TermReduction
