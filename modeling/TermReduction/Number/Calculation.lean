import TermReduction.Number.Arithmetic

/-!
Calculations: lists of numbers to which line after line adds one more, the result of an operation on
numbers that are in the list already.
-/

namespace TermReduction.Calculation

-- The operations on one number.
inductive Unary
  | neg
  | inv
  | sqrt
  | exp
  | ln
deriving DecidableEq

-- The operations on two numbers.
inductive Binary
  | add
  | sub
  | mul
  | div
  | pow
  | log
deriving DecidableEq

variable [Binary64.Elementary]

def Unary.apply : Unary → Number → Except Error Number
  | neg  => Number.neg
  | inv  => Number.inv
  | sqrt => Number.sqrt
  | exp  => Number.exp
  | ln   => Number.ln

def Binary.apply : Binary → Number → Number → Except Error Number
  | add, v, w => .ok (v.add w)
  | sub, v, w => .ok (v.sub w)
  | mul, v, w => .ok (v.mul w)
  | div, v, w => v.div w
  | pow, v, w => v.pow w
  | log, v, w => v.log w

-- An operation, with the places of its operands in the list of numbers.
inductive Line
  | unary (op : Unary) (i : Nat)
  | binary (op : Binary) (i j : Nat)
deriving DecidableEq

-- The result of a line; none if the operation fails, or if there are no such operands.
def Line.result? (vs : List Number) : Line → Option Number
  | unary op i    => do (op.apply (← vs[i]?)).toOption
  | binary op i j => do (op.apply (← vs[i]?) (← vs[j]?)).toOption

-- The numbers behind a line.
def extend (vs : List Number) (l : Line) : List Number :=
  vs ++ (l.result? vs).toList

-- The numbers behind all lines.
def run (vs : List Number) (ls : List Line) : List Number :=
  ls.foldl extend vs

end TermReduction.Calculation
