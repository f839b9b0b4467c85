import TermReduction.Numeral
import TermReduction.Term.Basic
import TermReduction.Token

/-!
What every way to read a term from tokens has in common: the checks on its parts, and the two shapes
of a whole expression; and the grammar of expressions as a relation between tokens and terms.
-/

namespace TermReduction.Term

-- An identifier with a valid name.
def ofName (name : String) : Except Error Term :=
  if isIdentifier name then .ok (identifier name) else .error (.invalidIdentifier name)

-- An operation with as many operands as its operator takes.
def ofOperator (op : Operator) (operands : List Term) : Except Error Term := do
  op.arity.check operands.length
  return operation op operands

-- A token that is no bracket: a number if it spells one, else an identifier.
def ofToken (token : String) : Except Error Term := do
  match ← Number.read? token with
  | some v => return literal v
  | none   => ofName token

-- The operator of a symbol behind an opening bracket. That more tokens follow is checked first.
def operatorAt (symbol : String) (rest : List String) : Except Error Operator := do
  Token.requireNext rest
  Operator.ofSymbol symbol

-- Refuses a token behind the end of an expression.
def expectEnd : List String → Except Error Unit
  | []     => .ok ()
  | t :: _ => .error (.malformed t)

-- A whole expression: a single token, or an operation. How the tokens behind the symbol of the
-- operation are read is left open.
def readWith (operands : Operator → List String → Except Error Term) :
    List String → Except Error Term
  | [] => .error (.malformed "No expression")
  | token :: rest =>
    if token = Token.opening then
      match rest with
      | [] => .error .unbalanced
      | symbol :: rest => do operands (← operatorAt symbol rest) rest
    else do
      expectEnd rest
      ofToken token

mutual

-- `Derives tokens t` holds when the tokens are an expression for `t`.
inductive Derives : List String → Term → Prop
  | operand {token t} : ofToken token = .ok t → Derives [token] t
  | operation {op tokens ts} :
    DerivesAll tokens ts → op.arity.Accepts ts.length →
    Derives (Token.opening :: op.symbol :: tokens ++ [Token.closing]) (.operation op ts)

-- `DerivesAll tokens ts` holds when the tokens are expressions for `ts`, one after the other.
inductive DerivesAll : List String → List Term → Prop
  | nil : DerivesAll [] []
  | cons {tokens rest t ts} :
    Derives tokens t → DerivesAll rest ts → DerivesAll (tokens ++ rest) (t :: ts)

end

end TermReduction.Term
