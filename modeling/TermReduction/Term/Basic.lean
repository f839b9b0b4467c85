import TermReduction.Operator.Basic
import TermReduction.Text.Letter

/-!
Terms: numbers, identifiers, and operators on lists of terms. A well-formed term has valid names, as
many operands at each operator as it takes, and fractions in lowest terms.
-/

namespace TermReduction

inductive Term
  | literal (v : Number)
  | identifier (name : String)
  | operation (op : Operator) (operands : List Term)

namespace Term

-- The induction hypothesis for an operation concerns each of its operands.
@[induction_eliminator]
theorem induction {motive : Term → Prop} (literal : ∀ v, motive (.literal v))
    (identifier : ∀ name, motive (.identifier name))
    (operation : ∀ op ts, (∀ t ∈ ts, motive t) → motive (.operation op ts)) (t : Term) : motive t :=
  @Term.rec motive (fun ts => ∀ t ∈ ts, motive t) literal identifier operation (by simp)
    (fun _ _ head tail => List.forall_mem_cons.2 ⟨head, tail⟩) t

mutual

def decEq : (s t : Term) → Decidable (s = t)
  | .literal v, .literal w =>
    decidable_of_iff (v = w) (by simp)
  | .identifier x, .identifier y =>
    decidable_of_iff (x = y) (by simp)
  | .operation op ss, .operation op' ts =>
    have := decEqAll ss ts
    decidable_of_iff (op = op' ∧ ss = ts) (by simp)
  | .literal _, .identifier _ | .literal _, .operation .. | .identifier _, .literal _
  | .identifier _, .operation .. | .operation .., .literal _ | .operation .., .identifier _ =>
    isFalse nofun

def decEqAll : (ss ts : List Term) → Decidable (ss = ts)
  | [], []           => isTrue rfl
  | s :: ss, t :: ts =>
    have := decEq s t
    have := decEqAll ss ts
    decidable_of_iff (s = t ∧ ss = ts) (by simp)
  | [], _ :: _ | _ :: _, [] => isFalse nofun

end

instance : DecidableEq Term := decEq

def isLiteral : Term → Bool
  | literal _ => true
  | _         => false

def isOperation : Term → Bool
  | operation .. => true
  | _            => false

-- An operation none of whose operands is an operation.
def isInnermost : Term → Bool
  | operation _ ts => ts.all (!·.isOperation)
  | _              => false

mutual

-- The names of the identifiers, from left to right.
def identifiers : Term → List String
  | literal _      => []
  | identifier x   => [x]
  | operation _ ts => identifiersAll ts

def identifiersAll : List Term → List String
  | []      => []
  | t :: ts => identifiers t ++ identifiersAll ts

end

def hasIdentifier (t : Term) : Bool :=
  !t.identifiers.isEmpty

mutual

-- How deep operations are nested.
def height : Term → Nat
  | operation _ ts => heightAll ts + 1
  | _              => 0

def heightAll : List Term → Nat
  | []      => 0
  | t :: ts => max (height t) (heightAll ts)

end

mutual

-- The number of operations.
def size : Term → Nat
  | operation _ ts => sizeAll ts + 1
  | _              => 0

def sizeAll : List Term → Nat
  | []      => 0
  | t :: ts => size t + sizeAll ts

end

inductive WellFormed : Term → Prop
  | literal {v} : v.WellFormed → WellFormed (.literal v)
  | identifier {name} : isIdentifier name → WellFormed (.identifier name)
  | operation {op ts} :
    op.arity.Accepts ts.length → (∀ t ∈ ts, WellFormed t) → WellFormed (.operation op ts)

theorem wellFormed_literal {v : Number} : (literal v).WellFormed ↔ v.WellFormed where
  mp  := fun (.literal h) => h
  mpr := .literal

theorem wellFormed_identifier {name : String} :
    (identifier name).WellFormed ↔ isIdentifier name where
  mp  := fun (.identifier h) => h
  mpr := .identifier

theorem wellFormed_operation {op : Operator} {ts : List Term} :
    (operation op ts).WellFormed ↔ op.arity.Accepts ts.length ∧ ∀ t ∈ ts, t.WellFormed where
  mp  := fun (.operation ha hs) => ⟨ha, hs⟩
  mpr := fun ⟨ha, hs⟩ => .operation ha hs

mutual

def decWellFormed : (t : Term) → Decidable t.WellFormed
  | .literal _      => decidable_of_iff' _ wellFormed_literal
  | .identifier _   => decidable_of_iff' _ wellFormed_identifier
  | .operation _ ts =>
    have := decWellFormedAll ts
    decidable_of_iff' _ wellFormed_operation

def decWellFormedAll : (ts : List Term) → Decidable (∀ t ∈ ts, t.WellFormed)
  | []      => isTrue (List.forall_mem_nil _)
  | t :: ts =>
    have := decWellFormed t
    have := decWellFormedAll ts
    decidable_of_iff' _ List.forall_mem_cons

end

instance : DecidablePred WellFormed := decWellFormed

end Term

end TermReduction
