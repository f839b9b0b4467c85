import TermReduction.Proofs.Numeral.Errors
import TermReduction.Proofs.Term.Stack

/-!
Reading a term from tokens: the two readers have the same outcome on every list of tokens, and what is
wrong with a list that they refuse.
-/

namespace TermReduction

-- What can be wrong with a single token.
inductive Token.ReadError (token : String) : Error → Prop
  | unknownOperator : Operator.ofSymbol? token = none → ReadError token (.unknownOperator token)
  | invalidIdentifier : isIdentifier token = false → ReadError token (.invalidIdentifier token)
  | number {x e} : Numeral.ofString? token = some x → x.ReadError e → ReadError token e

namespace Term

-- What can be wrong with a list of tokens that is not empty.
inductive ReadError (tokens : List String) : Error → Prop
  | unbalanced : ReadError tokens .unbalanced
  | token {token e} : token ∈ tokens → Token.ReadError token e → ReadError tokens e
  | arity {op : Operator} {n : Nat} :
    ¬op.arity.Accepts n → ReadError tokens (.arity n op.arity.minimum op.arity.maximum)
  | trailing {token} : token ∈ tokens → ReadError tokens (.malformed token)

theorem ReadError.mono {tokens tokens' : List String} {e : Error} (hs : tokens ⊆ tokens') :
    ReadError tokens e → ReadError tokens' e
  | unbalanced   => .unbalanced
  | token hm h   => .token (hs hm) h
  | arity h      => .arity h
  | trailing hm  => .trailing (hs hm)

variable {token symbol : String} {tokens rest : List String} {e : Error}

theorem requireNext_error (h : Token.requireNext tokens = .error e) : e = .unbalanced := by
  cases tokens
  case nil  => exact (Except.error.inj h).symm
  case cons => contradiction

theorem expectEnd_error (h : expectEnd tokens = .error e) : ∃ t ∈ tokens, e = .malformed t := by
  cases tokens
  case nil    => contradiction
  case cons t _ => exact ⟨t, List.mem_cons_self, (Except.error.inj h).symm⟩

theorem ofOperator_error {op : Operator} {ts : List Term} (h : ofOperator op ts = .error e) :
    ReadError tokens e := by
  simp only [ofOperator, Arity.check, Except.bind_eq_error, Except.pure_eq_ok, reduceCtorEq,
    and_false, exists_false, or_false] at h
  split at h
  case isTrue     => contradiction
  case isFalse ha => exact Except.error.inj h ▸ .arity ha

theorem operatorAt_error (h : operatorAt symbol rest = .error e) :
    ReadError (symbol :: rest) e := by
  simp only [operatorAt, Except.bind_eq_error] at h
  rcases h with h | ⟨_, _, h⟩
  · exact requireNext_error h ▸ .unbalanced
  · unfold Operator.ofSymbol at h
    cases ho : Operator.ofSymbol? symbol <;> rw [ho] at h
    case none =>
      exact Except.error.inj h ▸ .token List.mem_cons_self (.unknownOperator ho)
    case some => contradiction

theorem ofToken_name (h : Numeral.ofString? token = none) : ofToken token = ofName token := by
  simp [ofToken, Number.read?, h]

theorem ofToken_number {x : Numeral} (h : Numeral.ofString? token = some x) :
    ofToken token = x.read.map literal := by
  cases hr : x.read <;> simp [ofToken, Number.read?, h, hr, Except.map]

theorem ofToken_error (h : ofToken token = .error e) : Token.ReadError token e := by
  cases hx : Numeral.ofString? token
  case none =>
    rw [ofToken_name hx, ofName] at h
    split at h
    case isTrue     => contradiction
    case isFalse hi => exact Except.error.inj h ▸ .invalidIdentifier (eq_false_of_ne_true hi)
  case some x =>
    rw [ofToken_number hx] at h
    cases hr : x.read <;> rw [hr] at h
    case error => exact .number hx (Except.error.inj h ▸ Numeral.read_error hr)
    case ok    => contradiction

theorem takeOperands_suffix {ts : List Term} (h : takeOperands tokens = .ok (ts, rest)) :
    rest <:+ tokens := by
  induction tokens using operandsInduction generalizing ts rest with
  | nil => simp [takeOperands_nil] at h
  | closing tokens =>
    rw [takeOperands_closing] at h
    cases h
    exact List.suffix_cons _ _
  | unclosed => simp [takeOperands_unclosed] at h
  | opening symbol tokens nested after =>
    simp only [takeOperands_opening, Except.bind_eq_ok] at h
    have ⟨op, _, (us, rest'), h₁, t, _, _, _, (us', rest''), h₂, h⟩ := h
    cases h
    exact (after _ _ h₁ h₂).trans <| (nested h₁).trans <| List.suffix_append [_, symbol] tokens
  | operand token tokens hc ho ih =>
    simp only [takeOperands_operand _ hc ho, Except.bind_eq_ok] at h
    have ⟨t, _, _, _, (us, rest'), h₁, h⟩ := h
    cases h
    exact (ih h₁).trans <| List.suffix_cons _ _

theorem takeOperands_error (h : takeOperands tokens = .error e) : ReadError tokens e := by
  induction tokens using operandsInduction with
  | nil =>
    rw [takeOperands_nil] at h
    exact Except.error.inj h ▸ .unbalanced
  | closing tokens => simp [takeOperands_closing] at h
  | unclosed =>
    rw [takeOperands_unclosed] at h
    exact Except.error.inj h ▸ .unbalanced
  | opening symbol tokens nested after =>
    simp only [takeOperands_opening, Except.bind_eq_error] at h
    rcases h with h | ⟨op, _, h | ⟨⟨us, rest⟩, hn, h | ⟨t, _, h | ⟨_, _, h | ⟨_, _, h⟩⟩⟩⟩⟩
    · exact (operatorAt_error h).mono (List.subset_cons_self _ _)
    · exact (nested h).mono (List.subset_append_right [_, symbol] tokens)
    · exact ofOperator_error h
    · exact requireNext_error h ▸ .unbalanced
    · have hs : rest ⊆ tokens := (takeOperands_suffix hn).subset
      exact (after _ _ hn h).mono <| List.Subset.trans hs (List.subset_append_right [_, symbol] tokens)
    · contradiction
  | operand token tokens hc ho ih =>
    simp only [takeOperands_operand _ hc ho, Except.bind_eq_error] at h
    rcases h with h | ⟨t, _, h | ⟨_, _, h | ⟨_, _, h⟩⟩⟩
    · exact .token List.mem_cons_self (ofToken_error h)
    · exact requireNext_error h ▸ .unbalanced
    · exact (ih h).mono (List.subset_cons_self _ _)
    · contradiction

theorem readOutermost_error {op : Operator} (h : readOutermost op tokens = .error e) :
    ReadError tokens e := by
  simp only [readOutermost_eq, Except.bind_eq_error] at h
  rcases h with h | ⟨⟨ts, rest⟩, ht, h | ⟨_, _, h⟩⟩
  · exact takeOperands_error h
  · have ⟨t, hm, he⟩ := expectEnd_error h
    exact he ▸ .trailing ((takeOperands_suffix ht).subset hm)
  · exact ofOperator_error h

theorem ofTokens_error (h : ofTokens tokens = .error e) :
    tokens = [] ∧ e = .malformed "No expression" ∨ ReadError tokens e := by
  cases tokens using outermostCases with
  | nil =>
    rw [ofTokens_nil] at h
    exact .inl ⟨rfl, (Except.error.inj h).symm⟩
  | unclosed =>
    rw [ofTokens_unclosed] at h
    exact .inr (Except.error.inj h ▸ .unbalanced)
  | opening symbol tokens =>
    rw [ofTokens_opening, Except.bind_eq_error] at h
    rcases h with h | ⟨op, _, h⟩
    · exact .inr ((operatorAt_error h).mono (List.subset_cons_self _ _))
    · exact .inr ((readOutermost_error h).mono (List.subset_append_right [_, symbol] tokens))
  | operand token tokens ho =>
    rw [ofTokens_operand tokens ho, Except.bind_eq_error] at h
    rcases h with h | ⟨_, _, h⟩
    · obtain ⟨t, hm, rfl⟩ := expectEnd_error h
      exact .inr (.trailing (List.mem_cons_of_mem _ hm))
    · exact .inr (.token List.mem_cons_self (ofToken_error h))

theorem ofTokensByStack_eq (tokens : List String) : ofTokensByStack tokens = ofTokens tokens := by
  simp only [ofTokensByStack, readStack_eq_readOutermost]
  rfl

theorem eq_ofTokens_of_mem {read : List String → Except Error Term}
    (h : read ∈ [ofTokens, ofTokensByStack]) : read = ofTokens := by
  obtain rfl | h := List.mem_cons.1 h
  · rfl
  · exact (List.mem_singleton.1 h).trans (funext ofTokensByStack_eq)

-- The two readers agree on every list of tokens, also in the error and in what it reports.
theorem readers_agree (tokens : List String) :
    ofTokensByStack tokens = ofTokens tokens ∧
      ∀ e, ofTokens tokens = .error e →
        tokens = [] ∧ e = .malformed "No expression" ∨ ReadError tokens e :=
  ⟨ofTokensByStack_eq tokens, fun _ => ofTokens_error⟩

-- The zero denominator stands before the unknown operator and the missing bracket, and is reported.
theorem readers_agree_zeroDenominator :
    let tokens := ["(", "+", "x", "(", "-", "1/0", "(", "foo", "1", ")", ")"]
    let e := Error.domain (.number (.integer 0)) .differentFrom 0
    ofTokens tokens = .error e ∧ ofTokensByStack tokens = .error e ∧ ReadError tokens e := by
  intro tokens e
  have he : ofTokens tokens = .error e := by decide +kernel
  have ⟨hs, hr⟩ := readers_agree tokens
  exact ⟨he, hs.trans he, (hr e he).resolve_left (by simp [tokens])⟩

end Term

end TermReduction
