import TermReduction.Fraction.Checked

/-!
Chains of operations on a fraction. An operation that fails leaves the fraction as it was, and the chain
goes on.
-/

namespace TermReduction.Fraction

-- What a fraction is combined with: an integer, or a fraction that is made for it.
inductive Argument
  | integer (n : Int)
  | ratio (n d : Int)
deriving DecidableEq

inductive Operation
  | negate
  | invert
  | add (a : Argument)
  | multiply (a : Argument)
deriving DecidableEq

def Argument.make : Argument → Except Error Fraction
  | integer n => .ok (ofInt n)
  | ratio n d => ofRatio n d

def Operation.apply : Operation → Fraction → Except Error Fraction
  | negate, q     => .ok (-q)
  | invert, q     => .ok q.inv
  | add a, q      => do q.sum (← a.make)
  | multiply a, q => do q.product (← a.make)

-- The fraction behind an operation.
def perform (q : Fraction) (o : Operation) : Fraction :=
  match o.apply q with
  | .ok r    => r
  | .error _ => q

-- The fraction behind a chain of operations.
def chain (q : Fraction) (os : List Operation) : Fraction :=
  os.foldl perform q

end TermReduction.Fraction
