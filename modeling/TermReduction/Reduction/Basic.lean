import TermReduction.Reduction.Step

/-!
A reduction that is carried on step by step. A step that fails leaves the reduction where it was.
-/

namespace TermReduction

structure Reduction where
  phase    : Phase
  root     : Term
  bindings : Bindings
  limit    : Int

namespace Reduction

-- The greatest number of steps of a run, unless another one is given.
def defaultLimit : Int := 10000

def start (root : Term) (bindings : Bindings) (limit : Int) : Reduction :=
  ⟨.initial root, root, bindings, limit⟩

-- The reduction behind a step that has succeeded.
def advance (r : Reduction) (s : Step) : Reduction :=
  { r with phase := s.after, root := s.term }

variable [Binary64.Elementary]

-- One step: the tokens of the new root, and the reduction behind it.
def next (r : Reduction) : Except Error (List String) × Reduction :=
  match r.phase.step r.root r.bindings with
  | .error e => (.error e, r)
  | .ok s    => (.ok s.term.tokens, r.advance s)

-- At most `n` steps, up to the end or to a failure: the tokens after each of them.
def runFor (r : Reduction) (n : Nat) : Except Error (List (List String)) × Reduction :=
  if r.phase = .done then (.ok [], r)
  else
    match n with
    | 0     => (.error (.stepLimit r.limit), r)
    | n + 1 =>
      match r.next with
      | (.error e, r)   => (.error e, r)
      | (.ok tokens, r) =>
        let (trace, r) := r.runFor n
        (trace.map (tokens :: ·), r)

-- A run counts its own steps only, and a negative limit allows none.
def run (r : Reduction) : Except Error (List (List String)) × Reduction :=
  r.runFor r.limit.toNat

end Reduction

end TermReduction
