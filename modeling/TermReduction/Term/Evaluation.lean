import TermReduction.Bindings
import TermReduction.Operator.Application
import TermReduction.Term.Basic

/-!
The value of a term, and values in place of its parts: of its identifiers, of the names of constants, and of
the operations that have no operation among their operands. Operands are evaluated from left to right, all
of them before the operator is applied.
-/

namespace TermReduction.Term

variable [Binary64.Elementary]

mutual

def eval (b : Bindings) : Term → Except Error Number
  | literal v       => .ok v
  | identifier x    => b.lookup x
  | operation op ts => do op.apply (← evalAll b ts)

def evalAll (b : Bindings) : List Term → Except Error (List Number)
  | []      => .ok []
  | t :: ts => do
    let v ← eval b t
    return v :: (← evalAll b ts)

end

mutual

-- Replaces every identifier by its value.
def substitute (b : Bindings) : Term → Except Error Term
  | literal v       => .ok (literal v)
  | identifier x    => (b.lookup x).map literal
  | operation op ts => (substituteAll b ts).map (operation op)

def substituteAll (b : Bindings) : List Term → Except Error (List Term)
  | []      => .ok []
  | t :: ts => do
    let t ← substitute b t
    return t :: (← substituteAll b ts)

end

mutual

-- Replaces the names of constants by their values.
def expand : Term → Term
  | literal v       => literal v
  | identifier x    => (Constant.ofName? x).elim (identifier x) (literal ·.value)
  | operation op ts => operation op (expandAll ts)

def expandAll : List Term → List Term
  | []      => []
  | t :: ts => expand t :: expandAll ts

end

mutual

-- Replaces every innermost operation by its value, and counts them. Identifiers that stand beside a
-- nested operation stay.
def foldInnermost (b : Bindings) : Term → Except Error (Term × Nat)
  | literal v       => .ok (literal v, 0)
  | identifier x    => .ok (identifier x, 0)
  | operation op ts =>
    if isInnermost (operation op ts) then do
      return (literal (← eval b (operation op ts)), 1)
    else do
      let (ts, n) ← foldInnermostAll b ts
      return (operation op ts, n)

def foldInnermostAll (b : Bindings) : List Term → Except Error (List Term × Nat)
  | []      => .ok ([], 0)
  | t :: ts => do
    let (t, m) ← foldInnermost b t
    let (ts, n) ← foldInnermostAll b ts
    return (t :: ts, m + n)

end

end TermReduction.Term
