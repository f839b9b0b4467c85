import TermReduction.Proofs.Reduction.Naming
import TermReduction.Proofs.Term.Text
import TermReduction.Term.Evaluation

/-!
Constants may be expanded before or after reading: their names stand where operands stand, and their
texts are read as their numbers. A term that is read behind the expansion has no name of a constant left.
-/

namespace TermReduction

section Tokens

variable {token s : String}

theorem Constant.ofName?_eq_some {c : Constant} : ofName? s = some c ↔ c.name = s where
  mp h  := by simpa using List.find?_some h
  mpr h := h ▸ ofName?_name c

-- A token is the name of a constant, or it stays as it is.
theorem expandConstant_cases (token : String) :
    (∃ c : Constant, token = c.name ∧ expandConstant token = c.value.text) ∨
      Constant.ofName? token = none ∧ expandConstant token = token := by
  cases h : Constant.ofName? token
  case none   => exact .inr ⟨rfl, by rw [expandConstant, h]; rfl⟩
  case some c =>
    exact .inl ⟨c, (Constant.ofName?_eq_some.1 h).symm, by rw [expandConstant, h]; rfl⟩

theorem expandConstant_value (c : Constant) : expandConstant c.value.text = c.value.text := by
  cases c <;> decide +kernel

theorem expandConstants_idem (tokens : List String) :
    expandConstants (expandConstants tokens) = expandConstants tokens := by
  rw [expandConstants, expandConstants, List.map_map]
  refine List.map_congr_left fun token _ => ?_
  obtain ⟨c, _, h⟩ | ⟨_, h⟩ := expandConstant_cases token
  case inl => rw [Function.comp_apply, h, expandConstant_value]
  case inr => rw [Function.comp_apply, h, h]

-- Neither the name of a constant nor its text.
def NoConstant (s : String) : Prop :=
  ∀ c : Constant, c.name ≠ s ∧ c.value.text ≠ s

theorem noConstant_opening : NoConstant Token.opening
  | .e | .pi => ⟨by decide, by decide +kernel⟩

theorem noConstant_closing : NoConstant Token.closing
  | .e | .pi => ⟨by decide, by decide +kernel⟩

theorem noConstant_symbol (op : Operator) : NoConstant op.symbol := by
  rintro (_ | _) <;> cases op <;> exact ⟨by decide, by decide +kernel⟩

-- So brackets and symbols neither go away nor come in.
theorem NoConstant.expandConstant_eq_iff (h : NoConstant s) : expandConstant token = s ↔ token = s := by
  obtain ⟨c, rfl, ht⟩ | ⟨_, ht⟩ := expandConstant_cases token
  case inl => exact ht ▸ ⟨fun he => absurd he (h c).2, fun he => absurd he (h c).1⟩
  case inr => rw [ht]

end Tokens

namespace Term

mutual

theorem identifiers_expand : (t : Term) → ∀ x ∈ t.expand.identifiers, isConstantName x = false
  | literal _      => nofun
  | identifier x   => by
    rw [expand]
    cases h : Constant.ofName? x
    case none   => exact List.forall_mem_singleton.2 (by rw [isConstantName, h]; rfl)
    case some _ => exact nofun
  | operation _ ts => identifiersAll_expandAll ts

theorem identifiersAll_expandAll : (ts : List Term) →
    ∀ x ∈ identifiersAll (expandAll ts), isConstantName x = false
  | []      => nofun
  | t :: ts => List.forall_mem_append.2 ⟨identifiers_expand t, identifiersAll_expandAll ts⟩

end

theorem length_expandAll (ts : List Term) : (expandAll ts).length = ts.length := by
  induction ts
  case nil          => rfl
  case cons t ts ih => exact congrArg (· + 1) ih

theorem ofToken_constant (c : Constant) : ofToken c.name = .ok (identifier c.name) :=
  ofToken_identifier (by cases c <;> decide)

theorem ofToken_value (c : Constant) : ofToken c.value.text = .ok (literal c.value) := by
  cases c <;> exact ofToken_text trivial trivial

theorem expand_constant (c : Constant) : (identifier c.name).expand = literal c.value := by
  rw [expand, Constant.ofName?_name]
  rfl

theorem expand_of_ofToken {token : String} {t : Term} (hc : Constant.ofName? token = none)
    (h : ofToken token = .ok t) : t.expand = t := by
  obtain ⟨_, _, rfl⟩ | ⟨_, h⟩ := ofToken_eq_ok.1 h
  case inl => rfl
  case inr =>
    obtain ⟨_, rfl⟩ := ofName_eq_ok.1 h
    rw [expand, hc]
    rfl

theorem ofToken_expandConstant (token : String) :
    ofToken (expandConstant token) = (ofToken token).map expand := by
  obtain ⟨c, rfl, h⟩ | ⟨hc, h⟩ := expandConstant_cases token
  case inl =>
    rw [h, ofToken_value, ofToken_constant]
    exact congrArg Except.ok (expand_constant c).symm
  case inr =>
    rw [h]
    cases ht : ofToken token
    case error => rfl
    case ok t  => exact congrArg Except.ok (expand_of_ofToken hc ht).symm

mutual

theorem Derives.expand {tokens : List String} {t : Term} :
    Derives tokens t → Derives (expandConstants tokens) t.expand
  | .operand h => .operand (by rw [ofToken_expandConstant, h]; rfl)
  | @Derives.operation op us ts h ha => by
    have ho := noConstant_opening.expandConstant_eq_iff.2 rfl
    have hc := noConstant_closing.expandConstant_eq_iff.2 rfl
    have hs := (noConstant_symbol op).expandConstant_eq_iff.2 rfl
    have he : expandConstants (Token.opening :: op.symbol :: us ++ [Token.closing]) =
        Token.opening :: op.symbol :: expandConstants us ++ [Token.closing] := by
      simp [expandConstants, ho, hc, hs]
    exact he ▸ .operation h.expandAll (length_expandAll ts ▸ ha)

theorem DerivesAll.expandAll {tokens : List String} {ts : List Term} :
    DerivesAll tokens ts → DerivesAll (expandConstants tokens) (expandAll ts)
  | .nil       => .nil
  | .cons h hs => by
    rw [expandConstants, List.map_append]
    exact .cons h.expand hs.expandAll

end

mutual

-- What the expanded tokens are an expression for is the expansion of what the tokens are one for.
theorem Derives.of_expandConstants {us : List String} {u : Term} : Derives us u →
    ∀ {tokens : List String}, expandConstants tokens = us → ∃ t, Derives tokens t ∧ t.expand = u
  | .operand h, tokens, he => by
    obtain ⟨token, rfl, rfl⟩ := List.map_eq_singleton_iff.1 he
    rw [ofToken_expandConstant] at h
    cases ht : ofToken token <;> rw [ht] at h <;> cases h
    exact ⟨_, .operand ht, rfl⟩
  | @Derives.operation op us ts h ha, tokens, he => by
    obtain ⟨l, r, rfl, he, hr⟩ := List.map_eq_append_iff.1 he
    obtain ⟨a, l, rfl, ho, he⟩ := List.map_eq_cons_iff.1 he
    obtain ⟨symbol, mid, rfl, hs, hm⟩ := List.map_eq_cons_iff.1 he
    obtain ⟨z, rfl, hz⟩ := List.map_eq_singleton_iff.1 hr
    obtain rfl := noConstant_opening.expandConstant_eq_iff.1 ho
    obtain rfl := noConstant_closing.expandConstant_eq_iff.1 hz
    obtain rfl := (noConstant_symbol op).expandConstant_eq_iff.1 hs
    obtain ⟨ts, hd, rfl⟩ := h.of_expandConstants hm
    exact ⟨_, .operation hd (length_expandAll ts ▸ ha), rfl⟩

theorem DerivesAll.of_expandConstants {us : List String} {vs : List Term} : DerivesAll us vs →
    ∀ {tokens : List String}, expandConstants tokens = us →
      ∃ ts, DerivesAll tokens ts ∧ expandAll ts = vs
  | .nil, tokens, he       => by
    obtain rfl := List.map_eq_nil_iff.1 he
    exact ⟨[], .nil, rfl⟩
  | .cons h hs, tokens, he => by
    obtain ⟨l, r, rfl, hl, hr⟩ := List.map_eq_append_iff.1 he
    obtain ⟨t, hd, rfl⟩ := h.of_expandConstants hl
    obtain ⟨ts, hds, rfl⟩ := hs.of_expandConstants hr
    exact ⟨t :: ts, .cons hd hds, rfl⟩

end

theorem ofTokens_expandConstants {tokens : List String} {u : Term} :
    ofTokens (expandConstants tokens) = .ok u ↔ ∃ t, ofTokens tokens = .ok t ∧ t.expand = u := by
  constructor
  case mp  =>
    intro h
    obtain ⟨t, hd, he⟩ := (derives_of_ofTokens h).of_expandConstants rfl
    exact ⟨t, hd.ofTokens_eq, he⟩
  case mpr => exact fun ⟨t, h, he⟩ => he ▸ (derives_of_ofTokens h).expand.ofTokens_eq

-- No identifier that is left is the name of a constant, so looking it up cannot be refused for that.
theorem not_isLookup_reserved {t : Term} {b : Bindings} {x : String} :
    ¬(Error.reservedIdentifier x).IsLookup b t.expand.identifiers := by
  intro h
  obtain ⟨hx, hl⟩ := h x .reserved
  have hc : isConstantName x = false := identifiers_expand t x hx
  rw [Bindings.lookup, hc] at hl
  cases hg : b.get? x <;> rw [hg] at hl <;> cases hl

-- Expanding twice is expanding once. Behind the expansion both readers accept the same lists of tokens,
-- and what they read is the expansion of what they read before it. Neither its evaluation nor any calls
-- on its reduction come upon a reserved name, whatever is bound.
theorem expansion_commutes_with_reading [Binary64.Elementary] (tokens : List String) :
    expandConstants (expandConstants tokens) = expandConstants tokens ∧
      ∀ read ∈ [ofTokens, ofTokensByStack],
        ((∃ u, read (expandConstants tokens) = .ok u) ↔ ∃ t, read tokens = .ok t) ∧
          (∀ t, read tokens = .ok t → read (expandConstants tokens) = .ok t.expand) ∧
            ∀ u, read (expandConstants tokens) = .ok u → ∀ b x,
              u.eval b ≠ .error (.reservedIdentifier x) ∧ ∀ limit cs c,
                (((Reduction.start u b limit).callAll cs).call c).1 ≠ .error (.reservedIdentifier x) := by
  refine ⟨expandConstants_idem tokens, fun read hr => ?_⟩
  obtain rfl : read = ofTokens := by
    obtain rfl | rfl := List.mem_pair.1 hr
    · rfl
    · exact funext ofTokensByStack_eq
  refine ⟨?accepted, ?expanded, ?unreserved⟩
  case accepted   => simp [ofTokens_expandConstants]
  case expanded   => exact fun t h => ofTokens_expandConstants.2 ⟨t, h, rfl⟩
  case unreserved =>
    intro u h b x
    obtain ⟨t, _, rfl⟩ := ofTokens_expandConstants.1 h
    exact ⟨fun he => not_isLookup_reserved ((eval_failsAs b t.expand).of_eq he),
      fun limit cs c he => not_isLookup_reserved
        ((Reduction.call_failsAs_callAll t.expand b limit cs c).of_eq he)⟩

open scoped Binary64.Rounded

-- A binding of a constant's name has no effect. In the place of an operator that name is refused before
-- the expansion, and its text is refused after it.
theorem expansion_commutes_with_reading_bound :
    let tokens := ["(", "-", "pi", "x", "(", "/", "e", "2", ")", ")"]
    let b := (Bindings.empty.insert "pi" (.integer 3)).insert "x" (.integer 1)
    let t := operation .sub [identifier "pi", identifier "x",
      operation .div [identifier "e", literal (.integer 2)]]
    let u := operation .sub [literal Constant.pi.value, identifier "x",
      operation .div [literal Constant.e.value, literal (.integer 2)]]
    ofTokens tokens = .ok t ∧ t.eval b = .error (.reservedIdentifier "pi") ∧
      ofTokens (expandConstants tokens) = .ok u ∧ u.eval b = .ok (.real ⟨782451739360270⟩) ∧
        ofTokens ["(", "e", "2", ")"] = .error (.unknownOperator "e") ∧
          ¬∃ u, ofTokens (expandConstants ["(", "e", "2", ")"]) = .ok u := by
  intro tokens b t u
  have ht : ofTokens tokens = .ok t := by decide +kernel
  have hu : ofTokens (expandConstants tokens) = .ok u :=
    ((expansion_commutes_with_reading tokens).2 ofTokens List.mem_cons_self).2.1 t ht
  have he : ofTokens ["(", "e", "2", ")"] = .error (.unknownOperator "e") := by decide +kernel
  have hn := ((expansion_commutes_with_reading ["(", "e", "2", ")"]).2 ofTokens List.mem_cons_self).1
  refine ⟨ht, by decide +kernel, hu, by decide +kernel, he, fun h => ?_⟩
  obtain ⟨_, h⟩ := hn.1 h
  cases he.symm.trans h

end Term

end TermReduction
