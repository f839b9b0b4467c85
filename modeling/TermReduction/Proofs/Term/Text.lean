import TermReduction.Proofs.Identifier
import TermReduction.Proofs.Number.Text
import TermReduction.Proofs.Term.Grammar
import TermReduction.Term.Text

/-!
The tokens of a term are an expression for that term, so reading them gives it back.
-/

namespace TermReduction

theorem Number.read?_identifier {name : String} (h : isIdentifier name) :
    read? name = .ok none := by
  rw [read?, Numeral.ofString?_identifier h]

namespace Term

theorem literalsAll_eq (ts : List Term) : literalsAll ts = ts.flatMap literals := by
  induction ts
  case nil           => rfl
  case cons t ts ih => simp [literalsAll, ih]

theorem identifiersAll_eq (ts : List Term) : identifiersAll ts = ts.flatMap identifiers := by
  induction ts
  case nil           => rfl
  case cons t ts ih => simp [identifiersAll, ih]

theorem Writable.operand {op : Operator} {ts : List Term} (h : (operation op ts).Writable)
    {t : Term} (ht : t ∈ ts) : t.Writable := by
  intro v hv
  apply h
  rw [literals, literalsAll_eq]
  exact List.mem_flatMap.2 ⟨t, ht, hv⟩

theorem WellFormed.literals {t : Term} (h : t.WellFormed) : ∀ v ∈ t.literals, v.WellFormed := by
  induction t with
  | literal v =>
    cases h
    simpa [Term.literals]
  | identifier x => simp [Term.literals]
  | operation op ts ih =>
    cases h with
    | operation _ hs =>
      rw [Term.literals, literalsAll_eq]
      intro v hv
      obtain ⟨t, ht, hv⟩ := List.mem_flatMap.1 hv
      exact ih t ht (hs t ht) v hv

theorem WellFormed.identifiers {t : Term} (h : t.WellFormed) :
    ∀ x ∈ t.identifiers, isIdentifier x := by
  induction t with
  | literal v => simp [Term.identifiers]
  | identifier x =>
    cases h
    simpa [Term.identifiers]
  | operation op ts ih =>
    cases h with
    | operation _ hs =>
      rw [Term.identifiers, identifiersAll_eq]
      intro x hx
      obtain ⟨t, ht, hx⟩ := List.mem_flatMap.1 hx
      exact ih t ht (hs t ht) x hx

theorem DerivesAll.tokensAll {ts : List Term} (h : ∀ t ∈ ts, Derives t.tokens t) :
    DerivesAll (tokensAll ts) ts := by
  induction ts
  case nil => exact .nil
  case cons t ts ih =>
    have ⟨ht, hts⟩ := List.forall_mem_cons.1 h
    exact .cons ht (ih hts)

theorem ofToken_text {v : Number} (h : v.WellFormed) (hw : v.Writable) :
    ofToken v.text = .ok (literal v) := by
  simp [ofToken, Number.read?_text h hw]

theorem ofToken_identifier {name : String} (h : isIdentifier name) :
    ofToken name = .ok (identifier name) := by
  simp [ofToken, Number.read?_identifier h, ofName, h]

theorem derives_tokens {t : Term} (h : t.WellFormed) (hw : t.Writable) : Derives t.tokens t := by
  induction t with
  | literal v =>
    cases h with
    | literal hv => exact .operand (ofToken_text hv (hw v List.mem_cons_self))
  | identifier x =>
    cases h with
    | identifier hx => exact .operand (ofToken_identifier hx)
  | operation op ts ih =>
    cases h with
    | operation ha hs =>
      have hd : DerivesAll (Term.tokensAll ts) ts :=
        DerivesAll.tokensAll fun t ht => ih t ht (hs t ht) (hw.operand ht)
      exact .operation hd ha

theorem writeTokens_eq {t : Term} (h : t.Writable) : t.writeTokens = .ok t.tokens :=
  if_pos h

-- Writing a term and reading its tokens gives the term back, each number as the same number of the
-- same kind and each identifier as that identifier.
theorem readers_invert_tokens {t : Term} (h : t.WellFormed) (hw : t.Writable) :
    t.writeTokens = .ok t.tokens ∧ ofTokens t.tokens = .ok t ∧ ofTokensByStack t.tokens = .ok t ∧
      (∀ v ∈ t.literals, Number.read? v.text = .ok (some v)) ∧
        ∀ x ∈ t.identifiers, Number.read? x = .ok none := by
  have hr : ofTokens t.tokens = .ok t := (derives_tokens h hw).ofTokens_eq
  refine ⟨writeTokens_eq hw, hr, ofTokensByStack_eq _ ▸ hr, ?literals, ?identifiers⟩
  case literals    => exact fun v hv => Number.read?_text (h.literals v hv) (hw v hv)
  case identifiers => exact fun x hx => Number.read?_identifier (h.identifiers x hx)

-- Negative and whole reals, a ratio over one, and an identifier with a hyphen in front.
theorem readers_invert_tokens_mixed :
    let t := operation .add [literal (.rational ⟨-4, 1⟩), literal (.real ⟨-500000000000000⟩),
      operation .ln [identifier "-größe"], operation .mul [], literal (.real ⟨10000000000000000⟩)]
    t.WellFormed ∧ t.Writable ∧
      t.tokens = ["(", "+", "-4/1", "-0.5", "(", "ln", "-größe", ")", "(", "*", ")", "10.0", ")"] ∧
        ofTokens t.tokens = .ok t := by
  intro t
  have hf : t.WellFormed := by
    refine .operation (by decide) ?_
    simp only [List.forall_mem_cons]
    refine ⟨.literal ⟨by decide, by decide⟩, .literal trivial, ?_, ?_, .literal trivial, by simp⟩
    · exact .operation (by decide) (List.forall_mem_singleton.2 (.identifier (by decide +kernel)))
    · exact .operation (by decide) (by simp)
  have hw : t.Writable := by decide +kernel
  exact ⟨hf, hw, by decide +kernel, (readers_invert_tokens hf hw).2.1⟩

end Term

end TermReduction
