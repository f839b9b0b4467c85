import TermReduction.Term.Reading

/-!
Terms from tokens in one pass, with the operations whose closing bracket is still to come on a stack.
-/

namespace TermReduction.Term

-- An operation that is still open, and the operands it has so far, the latest first.
structure Frame where
  op : Operator
  operands : List Term

namespace Frame

def push (f : Frame) (t : Term) : Frame :=
  ⟨f.op, t :: f.operands⟩

def close (f : Frame) : Except Error Term :=
  ofOperator f.op f.operands.reverse

end Frame

-- Reads on with the innermost open operation `top` inside the others.
def readStack (top : Frame) (outer : List Frame) : List String → Except Error Term
  | [] => .error .unbalanced
  | token :: tokens =>
    if token = Token.closing then
      match outer with
      | [] => do
        expectEnd tokens
        top.close
      | f :: outer => do
        let t ← top.close
        Token.requireNext tokens
        readStack (f.push t) outer tokens
    else if token = Token.opening then
      match tokens with
      | [] => .error .unbalanced
      | symbol :: tokens => do
        let op ← operatorAt symbol tokens
        readStack ⟨op, []⟩ (top :: outer) tokens
    else do
      let t ← ofToken token
      Token.requireNext tokens
      readStack (top.push t) outer tokens

def ofTokensByStack (tokens : List String) : Except Error Term :=
  readWith (fun op => readStack ⟨op, []⟩ []) tokens

end TermReduction.Term
