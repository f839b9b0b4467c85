import TermReduction.Proofs.Term.Grammar

/-!
More tokens behind those that a reader is given. Operands that were read stay read, and an error goes away
only if it says that the tokens came to an end, or if it was found in closing the outermost operation.
-/

namespace TermReduction.Term

-- `Closes tokens op us rest` holds when the tokens begin with an operation of `op` on `us`, whether or not
-- `op` takes as many operands, and `rest` follows its closing bracket.
inductive Closes : List String → Operator → List Term → List String → Prop
  | mk {used op us rest} :
    DerivesAll used us →
    Closes (Token.opening :: op.symbol :: used ++ Token.closing :: rest) op us rest

variable {token symbol : String} {tokens rest : List String} {op : Operator} {us : List Term} {t : Term}
  {e : Error}

theorem operatorAt_append (h : operatorAt symbol rest ≠ .error .unbalanced) (more : List String) :
    operatorAt symbol (rest ++ more) = operatorAt symbol rest := by
  cases rest
  case nil  => exact absurd rfl h
  case cons => rfl

theorem requireNext_append (h : Token.requireNext rest = .ok ()) (more : List String) :
    Token.requireNext (rest ++ more) = .ok () :=
  requireNext_eq_ok.2 <| List.append_ne_nil_of_left_ne_nil (requireNext_eq_ok.1 h) more

theorem takeOperands_append_ok (h : takeOperands tokens = .ok (us, rest)) (more : List String) :
    takeOperands (tokens ++ more) = .ok (us, rest ++ more) := by
  obtain ⟨used, rfl, d⟩ := derivesAll_of_takeOperands h
  rw [List.append_assoc, List.cons_append]
  exact d.takeOperands_closing _

theorem takeOperands_append_error (h : takeOperands tokens = .error e) (he : e ≠ .unbalanced)
    (more : List String) : takeOperands (tokens ++ more) = .error e := by
  induction tokens using operandsInduction with
  | nil => exact absurd (Except.error.inj (takeOperands_nil.symm.trans h)).symm he
  | closing tokens => simp [takeOperands_closing] at h
  | unclosed => exact absurd (Except.error.inj (takeOperands_unclosed.symm.trans h)).symm he
  | opening symbol tokens nested after =>
    -- The parts in front of the one that fails have the same outcome as before.
    rw [List.cons_append, List.cons_append, takeOperands_opening]
    simp only [takeOperands_opening, Except.bind_eq_error] at h
    rcases h with h | ⟨op, ho, h⟩
    · rw [operatorAt_append (h ▸ fun h' => he (Except.error.inj h')), h, Except.error_bind]
    rw [operatorAt_append (ho ▸ nofun), ho, Except.ok_bind]
    rcases h with h | ⟨⟨us, rest⟩, hn, h⟩
    · rw [nested h, Except.error_bind]
    rw [takeOperands_append_ok hn, Except.ok_bind]
    rcases h with h | ⟨t, ht, h⟩
    · simp [h]
    rcases h with h | ⟨_, hr, h⟩
    · exact absurd (requireNext_error h) he
    rcases h with h | ⟨_, _, h⟩
    · simp [ht, requireNext_append hr, after _ _ hn h]
    · contradiction
  | operand token tokens hc ho ih =>
    rw [List.cons_append, takeOperands_operand _ hc ho]
    simp only [takeOperands_operand _ hc ho, Except.bind_eq_error] at h
    rcases h with h | ⟨t, ht, h⟩
    · simp [h]
    rcases h with h | ⟨_, hr, h⟩
    · exact absurd (requireNext_error h) he
    rcases h with h | ⟨_, _, h⟩
    · simp [ht, requireNext_append hr, ih h]
    · contradiction

namespace Closes

theorem append (h : Closes tokens op us rest) (more : List String) :
    Closes (tokens ++ more) op us (rest ++ more) := by
  obtain ⟨d⟩ := h
  rw [List.append_assoc, List.cons_append]
  exact ⟨d⟩

theorem ofTokens_eq (h : Closes tokens op us rest) :
    ofTokens tokens = (do
      expectEnd rest
      ofOperator op us) := by
  cases h
  case mk used d =>
    have ho : operatorAt op.symbol (used ++ Token.closing :: rest) = .ok op :=
      operatorAt_eq_ok.2 ⟨by simp, rfl⟩
    rw [List.cons_append, List.cons_append, ofTokens_opening, ho, Except.ok_bind, readOutermost_eq,
      d.takeOperands_closing, Except.ok_bind]

theorem ofTokens_trailing (h : Closes tokens op us (token :: rest)) :
    ofTokens tokens = .error (.malformed token) :=
  h.ofTokens_eq

theorem ofTokens_arity (h : Closes tokens op us []) (ha : ¬op.arity.Accepts us.length) :
    ofTokens tokens = .error (.arity us.length op.arity.minimum op.arity.maximum) := by
  rw [h.ofTokens_eq, expectEnd_eq_ok.2 rfl, Except.ok_bind, ofOperator, Arity.check, if_neg ha,
    Except.error_bind]

theorem rest_eq_nil (h : Closes tokens op us rest) (ht : ofTokens tokens = .ok t) : rest = [] := by
  rw [h.ofTokens_eq, Except.bind_eq_ok] at ht
  obtain ⟨_, he, _⟩ := ht
  exact expectEnd_eq_ok.1 he

end Closes

theorem closes_iff : Closes (Token.opening :: symbol :: tokens) op us rest ↔
    op.symbol = symbol ∧ takeOperands tokens = .ok (us, rest) := by
  constructor
  case mp =>
    intro h
    cases h
    case mk used d => exact ⟨rfl, d.takeOperands_closing rest⟩
  case mpr =>
    rintro ⟨rfl, h⟩
    obtain ⟨_, rfl, d⟩ := derivesAll_of_takeOperands h
    exact ⟨d⟩

theorem Derives.ofTokens_trailing (d : Derives tokens t) (token : String) (more : List String) :
    ofTokens (tokens ++ token :: more) = .error (.malformed token) := by
  cases d
  case operand h     => exact ofTokens_operand _ (ne_opening_of_ofToken h)
  case operation h _ => exact (Closes.append ⟨h⟩ (token :: more)).ofTokens_trailing

theorem ofTokens_append_error (ho : tokens.head? = some Token.opening) (h : ofTokens tokens = .error e)
    (he : e ≠ .unbalanced) (hc : ∀ op us rest, ¬Closes tokens op us rest) (more : List String) :
    ofTokens (tokens ++ more) = .error e := by
  cases tokens using outermostCases with
  | nil => contradiction
  | unclosed => exact absurd (Except.error.inj (ofTokens_unclosed.symm.trans h)).symm he
  | opening symbol tokens =>
    rw [List.cons_append, List.cons_append, ofTokens_opening]
    rw [ofTokens_opening, Except.bind_eq_error] at h
    rcases h with h | ⟨op, hs, h⟩
    · rw [operatorAt_append (h ▸ fun h' => he (Except.error.inj h')), h, Except.error_bind]
    rw [operatorAt_append (hs ▸ nofun), hs, Except.ok_bind, readOutermost_eq]
    rw [readOutermost_eq, Except.bind_eq_error] at h
    rcases h with h | ⟨⟨us, rest⟩, ht, _⟩
    · rw [takeOperands_append_error h he, Except.error_bind]
    · exact absurd (closes_iff.2 ⟨(operatorAt_eq_ok.1 hs).2, ht⟩) (hc op us rest)
  | operand token tokens hn => exact absurd (Option.some.inj ho) hn

-- If a beginning of an operation that is read failed for anything but the end of the tokens, then the
-- tokens behind it would not help.
theorem Derives.ofTokens_beginning {more : List String} (d : Derives (tokens ++ token :: more) t)
    (ho : tokens.head? = some Token.opening) : ofTokens tokens = .error .unbalanced := by
  cases h : ofTokens tokens
  case ok u =>
    have hm := (derives_of_ofTokens h).ofTokens_trailing token more
    cases d.ofTokens_eq.symm.trans hm
  case error e =>
    by_cases he : e = .unbalanced
    case pos => rw [he]
    case neg =>
      by_cases hc : ∃ op us rest, Closes tokens op us rest
      case pos =>
        obtain ⟨op, us, rest, hc⟩ := hc
        have hr : rest ++ token :: more = [] := (hc.append _).rest_eq_nil d.ofTokens_eq
        exact absurd hr (by simp)
      case neg =>
        simp only [not_exists] at hc
        cases d.ofTokens_eq.symm.trans (ofTokens_append_error ho h he hc _)

-- What either reader makes of more tokens. An operation that is read is unbalanced in all its beginnings.
-- Behind an expression the next token is reported. So it is if the outermost operation has a wrong number of
-- operands and is fine otherwise, and without that token the number is reported. Of the other errors those
-- that are found before the outermost operation is closed stay, unless they report the end of the tokens.
theorem outcome_of_extension {read : List String → Except Error Term}
    (hr : read ∈ [ofTokens, ofTokensByStack]) (tokens : List String) :
    (∀ t, read tokens = .ok t → tokens.head? = some Token.opening →
      ∀ p, p <+: tokens → p ≠ [] → p ≠ tokens → read p = .error .unbalanced) ∧
    (∀ t, read tokens = .ok t →
      ∀ token more, read (tokens ++ token :: more) = .error (.malformed token)) ∧
    (∀ op us, Closes tokens op us [] → ¬op.arity.Accepts us.length →
      read tokens = .error (.arity us.length op.arity.minimum op.arity.maximum) ∧
        ∀ token more, read (tokens ++ token :: more) = .error (.malformed token)) ∧
    (∀ e, tokens.head? = some Token.opening → read tokens = .error e → e ≠ .unbalanced →
      (∀ op us rest, ¬Closes tokens op us rest) → ∀ more, read (tokens ++ more) = .error e) := by
  obtain rfl := eq_ofTokens_of_mem hr
  refine ⟨?beginning, ?trailing, ?arity, ?error⟩
  case beginning =>
    rintro t ht ho p ⟨more, rfl⟩ hp hn
    cases p <;> cases more
    case cons.cons => exact (derives_of_ofTokens ht).ofTokens_beginning ho
    case cons.nil  => exact absurd (List.append_nil _).symm hn
    all_goals exact absurd rfl hp
  case trailing => exact fun t ht => (derives_of_ofTokens ht).ofTokens_trailing
  case arity =>
    exact fun op us h ha => ⟨h.ofTokens_arity ha, fun token more => (h.append _).ofTokens_trailing⟩
  case error => exact fun e ho h he hc => ofTokens_append_error ho h he hc

-- A logarithm with one operand, and one with two of which the first has an operand too many.
theorem outcome_of_extension_logarithm :
    let tokens := ["(", "log", "x", "(", "-", "2", ")", ")"]
    let lone := ["(", "log", "x", ")"]
    let nested := ["(", "log", "(", "ln", "x", "2", ")", "y"]
    ofTokensByStack (tokens.take 7) = .error .unbalanced ∧
      ofTokensByStack (tokens ++ ["y", ")"]) = .error (.malformed "y") ∧
        ofTokensByStack lone = .error (.arity 1 2 (some 2)) ∧
          ofTokensByStack (lone ++ [")", "y"]) = .error (.malformed ")") ∧
            ∀ more, ofTokensByStack (nested ++ more) = .error (.arity 2 1 (some 1)) := by
  intro tokens lone nested
  let t := operation .log [identifier "x", operation .sub [literal (.integer 2)]]
  have hr : ofTokensByStack ∈ [ofTokens, ofTokensByStack] := List.mem_cons_of_mem _ List.mem_cons_self
  have ht : ofTokensByStack tokens = .ok t := by decide +kernel
  have hl : Closes lone .log [identifier "x"] [] := closes_iff.2 ⟨rfl, by decide +kernel⟩
  have hn : takeOperands (nested.drop 2) = .error (.arity 2 1 (some 1)) := by decide +kernel
  have ⟨hbeginning, htrailing, _⟩ := outcome_of_extension hr tokens
  have ⟨_, _, harity, _⟩ := outcome_of_extension hr lone
  have ⟨_, _, _, herror⟩ := outcome_of_extension hr nested
  have ⟨hlone, hfurther⟩ := harity _ _ hl (by decide)
  refine ⟨?beginning, htrailing t ht "y" [")"], hlone, hfurther ")" ["y"], ?error⟩
  case beginning => exact hbeginning t ht rfl _ (tokens.take_prefix 7) (by decide) (by decide)
  case error =>
    exact herror _ rfl (by decide +kernel) nofun fun _ _ _ hc => nomatch hn.symm.trans (closes_iff.1 hc).2

end TermReduction.Term
