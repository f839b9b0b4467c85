import TermReduction.Proofs.Term.Descent
import TermReduction.Term.Stack

/-!
The stack of open operations against nested calls. Whatever is on the stack, reading on with it amounts
to reading the operands of the innermost open operation by descent, and then its closing bracket.
-/

namespace TermReduction.Term

namespace Frame

variable (f : Frame)

-- The open operation `f` with more operands behind those that it has.
def pushAll (ts : List Term) : Frame :=
  ⟨f.op, ts.reverse ++ f.operands⟩

theorem pushAll_nil : f.pushAll [] = f :=
  rfl

theorem pushAll_cons (t : Term) (ts : List Term) : f.pushAll (t :: ts) = (f.push t).pushAll ts := by
  simp [pushAll, push]

theorem close_pushAll (op : Operator) (ts : List Term) :
    (pushAll ⟨op, []⟩ ts).close = ofOperator op ts := by
  simp [pushAll, close]

end Frame

variable {top f : Frame} {outer : List Frame}

theorem readStack_outermost (tokens : List String) :
    readStack top [] (Token.closing :: tokens) = (do
      expectEnd tokens
      top.close) := by
  simp [readStack.eq_def]

theorem readStack_closing (tokens : List String) :
    readStack top (f :: outer) (Token.closing :: tokens) = (do
      let t ← top.close
      Token.requireNext tokens
      readStack (f.push t) outer tokens) := by
  rw [readStack.eq_def]
  simp

theorem readStack_unclosed : readStack top outer [Token.opening] = .error .unbalanced := by
  simp [readStack, opening_ne_closing]

theorem readStack_opening (symbol : String) (tokens : List String) :
    readStack top outer (Token.opening :: symbol :: tokens) = (do
      let op ← operatorAt symbol tokens
      readStack ⟨op, []⟩ (top :: outer) tokens) := by
  simp [readStack, opening_ne_closing]

theorem readStack_operand {token : String} (tokens : List String)
    (hc : token ≠ Token.closing) (ho : token ≠ Token.opening) :
    readStack top outer (token :: tokens) = (do
      let t ← ofToken token
      Token.requireNext tokens
      readStack (top.push t) outer tokens) := by
  rw [readStack.eq_def]
  simp [hc, ho]

-- The simulation. The induction is on the tokens, for every stack: a nested operation is put on the
-- stack, and what its call returns is pushed onto the operation below it.
theorem readStack_eq (top : Frame) (outer : List Frame) (tokens : List String) :
    readStack top outer tokens = (do
      let (ts, rest) ← takeOperands tokens
      readStack (top.pushAll ts) outer (Token.closing :: rest)) := by
  induction tokens using operandsInduction generalizing top outer with
  | nil => simp [takeOperands_nil, readStack]
  | closing rest => simp [takeOperands_closing, Frame.pushAll_nil]
  | unclosed => simp [takeOperands_unclosed, readStack_unclosed]
  | opening symbol tokens nested rest =>
    rw [readStack_opening, takeOperands_opening, bind_assoc]
    refine bind_congr fun op => ?_
    rw [nested]
    cases ht : takeOperands tokens
    case error => rfl
    case ok r =>
      have (ts, rest') := r
      simp only [Except.ok_bind, readStack_closing, Frame.close_pushAll, bind_assoc]
      refine bind_congr fun t => bind_congr fun _ => ?_
      rw [rest _ _ ht]
      simp [Frame.pushAll_cons]
  | operand token tokens hc ho ih =>
    rw [readStack_operand _ hc ho, takeOperands_operand _ hc ho]
    simp only [bind_assoc]
    refine bind_congr fun t => bind_congr fun _ => ?_
    rw [ih]
    simp [Frame.pushAll_cons]

theorem readStack_eq_readOutermost (op : Operator) :
    readStack ⟨op, []⟩ [] = readOutermost op := by
  funext tokens
  rw [readStack_eq, readOutermost_eq]
  simp only [readStack_outermost, Frame.close_pushAll]

end TermReduction.Term
