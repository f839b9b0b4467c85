import TermReduction.Term.Evaluation
import TermReduction.Term.Text

/-!
One step of a reduction. Identifiers are replaced in a single step; after that every step replaces the
innermost operations, until a number is left.
-/

namespace TermReduction

-- Where a reduction stands: before its identifiers are replaced, between that and its end, or at
-- its end.
inductive Phase
  | symbolic
  | reducing
  | done
deriving DecidableEq

namespace Phase

def all : List Phase :=
  [symbolic, reducing, done]

def name : Phase → String
  | symbolic => "NEEDS_SUBSTITUTION"
  | reducing => "REDUCING"
  | done     => "TERMINAL"

-- The phase of a term that no step has been made on.
def initial (t : Term) : Phase :=
  if t.isLiteral then done
  else if t.hasIdentifier then symbolic
  else reducing

-- The phase of a term that a step has led to. It does not look for identifiers again.
def after (t : Term) : Phase :=
  if t.isLiteral then done else reducing

end Phase

-- What a step has done.
inductive Action
  | nothing
  | substituted
  | folded (count : Nat)
deriving DecidableEq

structure Step where
  action : Action
  before : Phase
  after  : Phase
  source : Term
  term   : Term
deriving DecidableEq

namespace Step

-- The number of operations that were replaced by their values.
def folds (s : Step) : Nat :=
  match s.action with
  | .folded n => n
  | _         => 0

-- Whether the step has led to another phase.
def changesPhase (s : Step) : Bool :=
  match s.action with
  | .nothing     => false
  | .substituted => true
  | .folded _    => s.after ≠ s.before

def reason (s : Step) : String :=
  match s.action with
  | .nothing     => "terminal"
  | .substituted => "identifiers_substituted"
  | .folded _    => if s.after = .done then "reduced_to_value" else "leaf_operations_folded"

def details (s : Step) : String :=
  match s.action with
  | .nothing     => s!"Value: {s.term.text}"
  | .substituted => s!"Substituted identifiers: {s.source.text} → {s.term.text}"
  | .folded n    => s!"Folded {n} operation(s): {s.source.text} → {s.term.text}"

end Step

namespace Phase

variable [Binary64.Elementary]

-- The step that a phase asks for, whether or not it is the phase of the term.
def act (phase : Phase) (t : Term) (b : Bindings) : Except Error Step :=
  match phase with
  | done     => return ⟨.nothing, done, done, t, t⟩
  | symbolic => do
    let u ← t.substitute b
    return ⟨.substituted, symbolic, after u, t, u⟩
  | reducing => do
    let (u, n) ← t.foldInnermost b
    return ⟨.folded n, reducing, after u, t, u⟩

-- A step reports both terms, so it fails if one of them cannot be written.
def step (phase : Phase) (t : Term) (b : Bindings) : Except Error Step := do
  let s ← phase.act t b
  if s.source.Writable ∧ s.term.Writable then return s else throw .tooManyDigits

end Phase

end TermReduction
