import TermReduction.Term.Reading

/-!
Terms from tokens by recursive descent: the operands of a nested operation are read by a nested call.
-/

namespace TermReduction.Term

-- The operands up to the closing bracket that belongs to them, and the tokens behind it.
def readOperands (tokens : List String) :
    Except Error (List Term × { rest : List String // rest.length < tokens.length }) :=
  match tokens with
  | [] => .error .unbalanced
  | token :: tokens =>
    if token = Token.closing then .ok ([], ⟨tokens, by simp⟩)
    else if token = Token.opening then
      match tokens with
      | [] => .error .unbalanced
      | symbol :: tokens => do
        let op ← operatorAt symbol tokens
        let (nested, ⟨rest, h⟩) ← readOperands tokens
        let t ← ofOperator op nested
        Token.requireNext rest
        let (ts, ⟨rest', h'⟩) ← readOperands rest
        return (t :: ts, ⟨rest', Nat.lt_trans h' (Nat.lt_succ_of_lt (Nat.lt_succ_of_lt h))⟩)
    else do
      let t ← ofToken token
      Token.requireNext tokens
      let (ts, ⟨rest, h⟩) ← readOperands tokens
      return (t :: ts, ⟨rest, Nat.lt_succ_of_lt h⟩)
termination_by tokens.length

-- The outermost operation. Nothing may follow it, which is checked before its operands are
-- counted.
def readOutermost (op : Operator) (tokens : List String) : Except Error Term := do
  let (operands, rest) ← readOperands tokens
  expectEnd rest
  ofOperator op operands

def ofTokens (tokens : List String) : Except Error Term :=
  readWith readOutermost tokens

end TermReduction.Term
