import TermReduction.Number.Arithmetic
import TermReduction.Operator.Basic

/-!
The value of an operator on a list of numbers. Operands beyond those that an operator needs are left
out of account, and a missing one is an error.
-/

namespace TermReduction

namespace Number

-- The sum from the right. One number is its own sum, of whatever kind.
def sum : List Number → Number
  | []      => integer 0
  | [v]     => v
  | v :: vs => v.add (sum vs)

-- The product from the right.
def product : List Number → Number
  | []      => integer 1
  | [v]     => v
  | v :: vs => v.mul (product vs)

end Number

-- Subtraction and division take the rest of their operands together first.
def Operator.apply [Binary64.Elementary] : Operator → List Number → Except Error Number
  | add, vs               => .ok (Number.sum vs)
  | mul, vs               => .ok (Number.product vs)
  | sub, [v]              => v.neg
  | sub, v :: vs          => .ok (v.sub (Number.sum vs))
  | div, [v]              => v.inv
  | div, v :: vs          => v.div (Number.product vs)
  | exp, v :: _           => v.exp
  | ln, v :: _            => v.ln
  | sqrt, v :: _          => v.sqrt
  | expt, v :: w :: _     => v.pow w
  | log, v :: w :: _      => v.log w
  | _, _                  => .error .missingOperand

end TermReduction
