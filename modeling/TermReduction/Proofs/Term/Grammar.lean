import TermReduction.Proofs.Term.Reading

/-!
Descent accepts the grammar and nothing else. It is complete in front of any further tokens, and what
it accepts is well formed.
-/

namespace TermReduction

theorem Numeral.read_wellFormed {x : Numeral} {v : Number} (h : x.read = .ok v) : v.WellFormed := by
  cases x <;> simp only [read, Except.bind_eq_ok, Except.pure_eq_ok, Except.ok.injEq] at h
  case integer =>
    obtain ⟨_, _, rfl⟩ := h
    trivial
  case decimal =>
    obtain ⟨_, _, rfl⟩ := h
    trivial
  case ratio =>
    obtain ⟨_, _, _, _, _, hq, rfl⟩ := h
    exact Fraction.ofRatio_reduced hq

namespace Term

theorem ofName_eq_ok {name : String} {t : Term} :
    ofName name = .ok t ↔ isIdentifier name ∧ identifier name = t := by
  unfold ofName
  split <;> simp_all

theorem ofToken_eq_ok {token : String} {t : Term} : ofToken token = .ok t ↔
    (∃ v, Number.read? token = .ok (some v) ∧ literal v = t) ∨
      Number.read? token = .ok none ∧ ofName token = .ok t := by
  unfold ofToken
  cases Number.read? token
  case error  => simp
  case ok o   => cases o <;> simp

theorem ofName_wellFormed {name : String} {t : Term} (h : ofName name = .ok t) : t.WellFormed := by
  obtain ⟨hi, rfl⟩ := ofName_eq_ok.1 h
  exact .identifier hi

theorem ofToken_wellFormed {token : String} {t : Term} (h : ofToken token = .ok t) :
    t.WellFormed := by
  cases hx : Numeral.ofString? token
  case none => exact ofName_wellFormed (ofToken_name hx ▸ h)
  case some x =>
    rw [ofToken_number hx] at h
    cases hr : x.read <;> rw [hr] at h
    case error => contradiction
    case ok v  => exact Except.ok.inj h ▸ .literal (Numeral.read_wellFormed hr)

theorem ofOperator_eq_ok {op : Operator} {ts : List Term} {t : Term} :
    ofOperator op ts = .ok t ↔ op.arity.Accepts ts.length ∧ operation op ts = t := by
  unfold ofOperator Arity.check
  split <;> simp_all

theorem operatorAt_eq_ok {symbol : String} {rest : List String} {op : Operator} :
    operatorAt symbol rest = .ok op ↔ rest ≠ [] ∧ op.symbol = symbol := by
  cases rest
  case nil => simp [operatorAt, Token.requireNext]
  case cons =>
    simp only [operatorAt, Token.requireNext, Except.ok_bind, ne_eq, reduceCtorEq,
      not_false_eq_true, true_and]
    rw [Operator.ofSymbol_eq_ok]

theorem requireNext_eq_ok {rest : List String} : Token.requireNext rest = .ok () ↔ rest ≠ [] := by
  cases rest <;> simp [Token.requireNext]

theorem expectEnd_eq_ok {rest : List String} : expectEnd rest = .ok () ↔ rest = [] := by
  cases rest <;> simp [expectEnd]

-- Brackets spell neither numbers nor identifiers.
theorem ofToken_opening : ofToken Token.opening = .error (.invalidIdentifier Token.opening) := by
  decide +kernel

theorem ofToken_closing : ofToken Token.closing = .error (.invalidIdentifier Token.closing) := by
  decide +kernel

theorem ne_opening_of_ofToken {token : String} {t : Term} (h : ofToken token = .ok t) :
    token ≠ Token.opening := by
  rintro rfl
  simp [ofToken_opening] at h

theorem ne_closing_of_ofToken {token : String} {t : Term} (h : ofToken token = .ok t) :
    token ≠ Token.closing := by
  rintro rfl
  simp [ofToken_closing] at h

mutual

theorem Derives.takeOperands_append {used : List String} {t : Term} :
    Derives used t → ∀ {rest : List String}, rest ≠ [] →
      takeOperands (used ++ rest) = (do
        let (ts, rest) ← takeOperands rest
        return (t :: ts, rest))
  | @Derives.operand token _ h, rest, hr => by
    rw [List.singleton_append, takeOperands_operand _ (ne_closing_of_ofToken h)
      (ne_opening_of_ofToken h), h, requireNext_eq_ok.2 hr]
    rfl
  | @Derives.operation op tokens ts h ha, rest, hr => by
    have hn : takeOperands (tokens ++ Token.closing :: rest) = .ok (ts, rest) :=
      h.takeOperands_closing rest
    have ho : operatorAt op.symbol (tokens ++ Token.closing :: rest) = .ok op :=
      operatorAt_eq_ok.2 ⟨by simp, rfl⟩
    have ht : ofOperator op ts = .ok (operation op ts) := ofOperator_eq_ok.2 ⟨ha, rfl⟩
    rw [List.append_assoc, List.singleton_append, List.cons_append, List.cons_append,
      takeOperands_opening]
    simp [ho, hn, ht, requireNext_eq_ok.2 hr]

theorem DerivesAll.takeOperands_closing {used : List String} {ts : List Term} :
    DerivesAll used ts → ∀ rest : List String,
      takeOperands (used ++ Token.closing :: rest) = .ok (ts, rest)
  | .nil, rest => Term.takeOperands_closing rest
  | .cons h hs, rest => by
    rw [List.append_assoc, h.takeOperands_append (by simp), hs.takeOperands_closing rest]
    rfl

end

theorem derivesAll_of_takeOperands {tokens rest : List String} {ts : List Term}
    (h : takeOperands tokens = .ok (ts, rest)) :
    ∃ used, tokens = used ++ Token.closing :: rest ∧ DerivesAll used ts := by
  induction tokens using operandsInduction generalizing ts rest with
  | nil => simp [takeOperands_nil] at h
  | closing tokens =>
    rw [takeOperands_closing] at h
    cases h
    exact ⟨[], rfl, .nil⟩
  | unclosed => simp [takeOperands_unclosed] at h
  | opening symbol tokens nested after =>
    simp only [takeOperands_opening, Except.bind_eq_ok] at h
    have ⟨op, ho, ⟨us, rest'⟩, hn, t, ht, _, _, ⟨us', rest''⟩, ha, h⟩ := h
    cases h
    have ⟨_, rfl⟩ := operatorAt_eq_ok.1 ho
    have ⟨hl, rfl⟩ := ofOperator_eq_ok.1 ht
    have ⟨used, hu, d⟩ := nested hn
    have ⟨used', hu', d'⟩ := after _ _ hn ha
    exact ⟨_, by simp [hu, hu'], .cons (.operation d hl) d'⟩
  | operand token tokens hc ho ih =>
    simp only [takeOperands_operand _ hc ho, Except.bind_eq_ok] at h
    have ⟨t, ht, _, _, ⟨us, rest'⟩, hr, h⟩ := h
    cases h
    have ⟨used, hu, d⟩ := ih hr
    exact ⟨token :: used, by simp [hu], .cons (.operand ht) d⟩

theorem derives_of_ofTokens {tokens : List String} {t : Term} (h : ofTokens tokens = .ok t) :
    Derives tokens t := by
  cases tokens using outermostCases with
  | nil => simp [ofTokens_nil] at h
  | unclosed => simp [ofTokens_unclosed] at h
  | opening symbol tokens =>
    simp only [ofTokens_opening, readOutermost_eq, Except.bind_eq_ok] at h
    obtain ⟨op, hs, ⟨ts, rest⟩, ht, _, he, h⟩ := h
    obtain ⟨_, rfl⟩ := operatorAt_eq_ok.1 hs
    obtain ⟨hl, rfl⟩ := ofOperator_eq_ok.1 h
    obtain ⟨used, rfl, d⟩ := derivesAll_of_takeOperands ht
    cases expectEnd_eq_ok.1 he
    exact .operation d hl
  | operand token tokens ho =>
    rw [ofTokens_operand tokens ho, Except.bind_eq_ok] at h
    obtain ⟨_, he, h⟩ := h
    cases expectEnd_eq_ok.1 he
    exact .operand h

theorem Derives.ofTokens_eq {tokens : List String} {t : Term} (d : Derives tokens t) :
    ofTokens tokens = .ok t := by
  cases d
  case operand token h =>
    rw [ofTokens_operand [] (ne_opening_of_ofToken h)]
    exact h
  case operation op tokens ts h ha =>
    have hn : takeOperands (tokens ++ [Token.closing]) = .ok (ts, []) := h.takeOperands_closing []
    have ho : operatorAt op.symbol (tokens ++ [Token.closing]) = .ok op :=
      operatorAt_eq_ok.2 ⟨by simp, rfl⟩
    have ht : ofOperator op ts = .ok (.operation op ts) := ofOperator_eq_ok.2 ⟨ha, rfl⟩
    rw [List.cons_append, List.cons_append, ofTokens_opening, ho, Except.ok_bind, readOutermost_eq, hn]
    exact ht

mutual

theorem Derives.wellFormed {tokens : List String} {t : Term} : Derives tokens t → t.WellFormed
  | .operand h      => ofToken_wellFormed h
  | .operation h ha => .operation ha h.wellFormed

theorem DerivesAll.wellFormed {tokens : List String} {ts : List Term} :
    DerivesAll tokens ts → ∀ t ∈ ts, t.WellFormed
  | .nil       => nofun
  | .cons h hs => List.forall_mem_cons.2 ⟨h.wellFormed, hs.wellFormed⟩

end

theorem Derives.unique {tokens : List String} {t u : Term} (d : Derives tokens t)
    (e : Derives tokens u) : t = u :=
  Except.ok.inj <| d.ofTokens_eq.symm.trans e.ofTokens_eq

-- The reader accepts its grammar and nothing else, and the grammar is unambiguous.
theorem ofTokens_eq_ok_iff_derives (tokens : List String) :
    (∀ t, ofTokens tokens = .ok t ↔ Derives tokens t) ∧
      (∀ t u, Derives tokens t → Derives tokens u → t = u) ∧
        ∀ t, Derives tokens t → t.WellFormed := by
  refine ⟨?iff, ?unique, ?wellFormed⟩
  case iff        => exact fun t => ⟨derives_of_ofTokens, Derives.ofTokens_eq⟩
  case unique     => exact fun t u => Derives.unique
  case wellFormed => exact fun t => Derives.wellFormed

-- The name of an operator is an identifier behind the first place.
theorem derives_nested_operation :
    let tokens := ["(", "-", "ln", "(", "*", ")", "(", "expt", "2.50", "6/4", ")", ")"]
    let t := operation .sub [identifier "ln", operation .mul [],
      operation .expt [literal (.real ⟨2500000000000000⟩), literal (.rational ⟨3, 2⟩)]]
    Derives tokens t ∧ (∀ u, Derives tokens u → u = t) ∧ t.WellFormed := by
  intro tokens t
  have ⟨hiff, hunique, hwellFormed⟩ := ofTokens_eq_ok_iff_derives tokens
  have hd : Derives tokens t := (hiff t).1 (by decide +kernel)
  exact ⟨hd, fun u hu => hunique u t hu hd, hwellFormed t hd⟩

end Term

end TermReduction
