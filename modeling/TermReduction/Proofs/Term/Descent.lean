import TermReduction.Proofs.Except
import TermReduction.Term.Descent

/-!
The operands that recursive descent reads, one token after the other. `readOperands` carries a proof
that tokens are used up; here it is left out, so that every kind of token has one equation.
-/

namespace TermReduction.Term

-- The operands up to the closing bracket, and the tokens behind it.
def takeOperands (tokens : List String) : Except Error (List Term × List String) := do
  let (ts, ⟨rest, _⟩) ← readOperands tokens
  return (ts, rest)

theorem takeOperands_nil : takeOperands [] = .error .unbalanced := by
  simp [takeOperands, readOperands]

theorem takeOperands_closing (rest : List String) :
    takeOperands (Token.closing :: rest) = .ok ([], rest) := by
  rw [takeOperands, readOperands.eq_def]
  simp

theorem opening_ne_closing : Token.opening ≠ Token.closing := by
  decide

theorem takeOperands_unclosed : takeOperands [Token.opening] = .error .unbalanced := by
  simp [takeOperands, readOperands, opening_ne_closing]

theorem takeOperands_opening (symbol : String) (tokens : List String) :
    takeOperands (Token.opening :: symbol :: tokens) = do
      let op ← operatorAt symbol tokens
      let (nested, rest) ← takeOperands tokens
      let t ← ofOperator op nested
      Token.requireNext rest
      let (ts, rest) ← takeOperands rest
      return (t :: ts, rest) := by
  simp [takeOperands, readOperands, opening_ne_closing]

theorem takeOperands_operand {token : String} (tokens : List String)
    (hc : token ≠ Token.closing) (ho : token ≠ Token.opening) :
    takeOperands (token :: tokens) = do
      let t ← ofToken token
      Token.requireNext tokens
      let (ts, rest) ← takeOperands tokens
      return (t :: ts, rest) := by
  rw [takeOperands, readOperands.eq_def]
  simp [takeOperands, hc, ho]

theorem takeOperands_length {tokens rest : List String} {ts : List Term}
    (h : takeOperands tokens = .ok (ts, rest)) : rest.length < tokens.length := by
  simp only [takeOperands, Except.bind_eq_ok] at h
  have ⟨⟨_, _, h'⟩, _, h⟩ := h
  cases h
  exact h'

-- Induction along the tokens, as descent reads them. Behind a nested operation it goes on with what
-- the nested call has left.
theorem operandsInduction {motive : List String → Prop} (nil : motive [])
    (closing : ∀ rest, motive (Token.closing :: rest))
    (unclosed : motive [Token.opening])
    (opening : ∀ symbol tokens, motive tokens →
      (∀ ts rest, takeOperands tokens = .ok (ts, rest) → motive rest) →
      motive (Token.opening :: symbol :: tokens))
    (operand : ∀ token tokens, token ≠ Token.closing → token ≠ Token.opening → motive tokens →
      motive (token :: tokens))
    (tokens : List String) : motive tokens :=
  readOperands.induct motive nil closing (fun _ => unclosed)
    (fun symbol tokens _ nested rest =>
      opening symbol tokens nested fun _ _ h => rest _ (takeOperands_length h))
    operand tokens

theorem readOutermost_eq (op : Operator) (tokens : List String) :
    readOutermost op tokens = (do
      let (operands, rest) ← takeOperands tokens
      expectEnd rest
      ofOperator op operands) := by
  simp [readOutermost, takeOperands]

theorem ofTokens_nil : ofTokens [] = .error (.malformed "No expression") :=
  rfl

theorem ofTokens_unclosed : ofTokens [Token.opening] = .error .unbalanced :=
  rfl

theorem ofTokens_opening (symbol : String) (tokens : List String) :
    ofTokens (Token.opening :: symbol :: tokens) = (do
      let op ← operatorAt symbol tokens
      readOutermost op tokens) :=
  rfl

theorem ofTokens_operand {token : String} (tokens : List String) (ho : token ≠ Token.opening) :
    ofTokens (token :: tokens) = (do
      expectEnd tokens
      ofToken token) :=
  if_neg ho

theorem outermostCases {motive : List String → Prop} (nil : motive [])
    (unclosed : motive [Token.opening])
    (opening : ∀ symbol tokens, motive (Token.opening :: symbol :: tokens))
    (operand : ∀ token tokens, token ≠ Token.opening → motive (token :: tokens))
    (tokens : List String) : motive tokens := by
  cases tokens
  case nil => exact nil
  case cons token tokens =>
    by_cases ho : token = Token.opening
    case neg => exact operand token tokens ho
    case pos =>
      subst ho
      cases tokens
      case nil                => exact unclosed
      case cons symbol tokens => exact opening symbol tokens

end TermReduction.Term
