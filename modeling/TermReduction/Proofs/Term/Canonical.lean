import TermReduction.Proofs.Term.RoundTrip

/-!
The tokens of a term that was read. They are the tokens that it was read from, in their places, with every
number in its canonical text.
-/

namespace TermReduction

namespace Number

variable {s : String} {v : Number}

theorem canonicalText_of_none (h : read? s = .ok none) : canonicalText s = s := by
  rw [canonicalText, read_eq_invalidIdentifier_iff.2 ⟨h, rfl⟩]

theorem canonicalText_eq_self_iff : canonicalText s = s ↔ ∀ v, read? s = .ok (some v) → v.text = s := by
  constructor
  case mp  =>
    intro h v hv
    rwa [canonicalText_eq (read_eq_ok_iff.2 hv)] at h
  case mpr =>
    intro h
    unfold canonicalText
    split
    case h_1 v hv => exact h v (read_eq_ok_iff.1 hv)
    case h_2      => rfl

-- Neither brackets nor symbols are taken for numbers, though some symbols are signs.
theorem read?_opening : read? Token.opening = .ok none := by
  decide +kernel

theorem read?_closing : read? Token.closing = .ok none := by
  decide +kernel

theorem read?_symbol (op : Operator) : read? op.symbol = .ok none := by
  cases op <;> decide +kernel

end Number

namespace Term

open Number (canonicalText)

theorem tokens_of_ofToken {token : String} {t : Term} (h : ofToken token = .ok t) :
    t.tokens = [canonicalText token] ∧ t.Writable := by
  obtain ⟨v, hv, rfl⟩ | ⟨hn, h⟩ := ofToken_eq_ok.1 h
  case inl =>
    have hv := Number.read_eq_ok_iff.2 hv
    rw [Number.canonicalText_eq hv]
    exact ⟨rfl, List.forall_mem_singleton.2 (Number.writable_of_read hv)⟩
  case inr =>
    obtain ⟨_, rfl⟩ := ofName_eq_ok.1 h
    rw [Number.canonicalText_of_none hn]
    exact ⟨rfl, List.forall_mem_nil _⟩

mutual

theorem Derives.tokens_eq {tokens : List String} {t : Term} :
    Derives tokens t → t.tokens = tokens.map canonicalText
  | .operand h                        => (tokens_of_ofToken h).1
  | @Derives.operation op us ts h _ => by
    rw [Term.tokens, h.tokensAll_eq]
    simp [Number.canonicalText_of_none, Number.read?_opening, Number.read?_closing, Number.read?_symbol]

theorem DerivesAll.tokensAll_eq {tokens : List String} {ts : List Term} :
    DerivesAll tokens ts → Term.tokensAll ts = tokens.map canonicalText
  | .nil       => rfl
  | .cons h hs => by rw [Term.tokensAll, h.tokens_eq, hs.tokensAll_eq, List.map_append]

end

mutual

-- Integers that are read are short enough to be written.
theorem Derives.writable {tokens : List String} {t : Term} : Derives tokens t → t.Writable
  | .operand h     => (tokens_of_ofToken h).2
  | .operation h _ => h.writable

theorem DerivesAll.writable {tokens : List String} {ts : List Term} :
    DerivesAll tokens ts → ∀ v ∈ literalsAll ts, v.Writable
  | .nil       => List.forall_mem_nil _
  | .cons h hs => List.forall_mem_append.2 ⟨h.writable, hs.writable⟩

end

-- A term that was read is written with the tokens that it was read from, each number among them in its
-- canonical text. These tokens are read as that term again, so they do not change any more, and they are the
-- first ones exactly if all numbers among those were canonical.
theorem reading_canonicalizes {read : List String → Except Error Term} {tokens : List String} {t : Term}
    (hr : read ∈ [ofTokens, ofTokensByStack]) (h : read tokens = .ok t) :
    t.writeTokens = .ok (tokens.map canonicalText) ∧ read (tokens.map canonicalText) = .ok t ∧
      (t.writeTokens = .ok tokens ↔
        ∀ token ∈ tokens, ∀ v, Number.read? token = .ok (some v) → v.text = token) := by
  obtain rfl := eq_ofTokens_of_mem hr
  have hd := derives_of_ofTokens h
  have hw := writeTokens_eq hd.writable
  refine ⟨hd.tokens_eq ▸ hw, ?again, ?canonical⟩
  case again     => exact hd.tokens_eq ▸ (derives_tokens hd.wellFormed hd.writable).ofTokens_eq
  case canonical =>
    have hm : tokens.map canonicalText = tokens ↔ ∀ token ∈ tokens, canonicalText token = token := by
      conv_lhs => rhs; rw [← List.map_id tokens]
      exact List.map_inj_left
    rw [hw, hd.tokens_eq, Except.ok.injEq, hm]
    exact forall₂_congr fun token _ => Number.canonicalText_eq_self_iff

-- The operator is a sign, and the ratio stays a ratio though its value is an integer.
theorem reading_canonicalizes_spellings :
    let tokens := ["(", "-", "+007", "(", "ln", "x", ")", "2.50e1", "-8/2", ")"]
    let canonical := ["(", "-", "7", "(", "ln", "x", ")", "25.0", "-4/1", ")"]
    let t := operation .sub [literal (.integer 7), operation .ln [identifier "x"],
      literal (.real ⟨25000000000000000⟩), literal (.rational ⟨-4, 1⟩)]
    ofTokens tokens = .ok t ∧ t.writeTokens = .ok canonical ∧ ofTokens canonical = .ok t ∧
      t.writeTokens ≠ .ok tokens := by
  intro tokens canonical t
  have hc : tokens.map canonicalText = canonical := by decide +kernel
  have ht : ofTokens tokens = .ok t := by decide +kernel
  have ⟨hw, hr, _⟩ := reading_canonicalizes List.mem_cons_self ht
  rw [hc] at hw hr
  exact ⟨ht, hw, hr, fun h => absurd (hw.symm.trans h) (by decide +kernel)⟩

end Term

end TermReduction
