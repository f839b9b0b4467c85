import TermReduction.Proofs.Term.Text
import TermReduction.Proofs.Token

/-!
The two written forms of a term agree: the tokens of its text are its tokens. Numbers, identifiers and
symbols are words, and the text puts a blank or a bracket behind each of them.
-/

namespace TermReduction

namespace Token

variable {c : Char}

theorem isBlank_eq_false_of_range {low high : Nat} (h : ∀ r ∈ blankRanges, high < r.1 ∨ r.2 < low)
    (hl : low ≤ c.toNat) (hh : c.toNat ≤ high) : isBlank c = false := by
  simp only [isBlank, List.any_eq_false, Bool.and_eq_true, decide_eq_true_eq]
  intro r hr
  have := h r hr
  omega

theorem isBracket_eq_false (h : '0'.toNat ≤ c.toNat) : isBracket c = false := by
  apply eq_false_of_ne_true
  intro hb
  rcases isBracket_iff.1 hb with rfl | rfl <;> exact absurd h (by decide)

theorem isSeparator_digit (h : c.isDigit) : isSeparator c = false := by
  obtain ⟨hl, hh⟩ := Char.isDigit_iff_toNat.1 h
  exact isSeparator_eq_false.2 ⟨isBlank_eq_false_of_range (by decide) hl hh, isBracket_eq_false hl⟩

theorem isBlank_alpha (h : c.isAlpha) : isBlank c = false := by
  cases (Bool.or_eq_true ..).mp h
  case inl h =>
    have ⟨hl, hh⟩ : 'A'.val ≤ c.val ∧ c.val ≤ 'Z'.val := of_decide_eq_true h
    exact @isBlank_eq_false_of_range c 'A'.toNat 'Z'.toNat (by decide) (UInt32.le_iff_toNat_le.1 hl)
      (UInt32.le_iff_toNat_le.1 hh)
  case inr h =>
    have ⟨hl, hh⟩ := Bool.and_eq_true_iff.1 h
    have hl : 'a'.val ≤ c.val := of_decide_eq_true hl
    have hh : c.val ≤ 'z'.val := of_decide_eq_true hh
    exact @isBlank_eq_false_of_range c 'a'.toNat 'z'.toNat (by decide) (UInt32.le_iff_toNat_le.1 hl)
      (UInt32.le_iff_toNat_le.1 hh)

-- No range of letters meets one of blanks.
theorem letterRanges_apart : ∀ l ∈ letterRanges, ∀ r ∈ blankRanges, l.2 < r.1 ∨ r.2 < l.1 := by
  decide +kernel

theorem isSeparator_letter (h : isLetter c) : isSeparator c = false := by
  refine isSeparator_eq_false.2 ⟨?blank, isBracket_eq_false ?bracket⟩
  case bracket => exact Nat.le_trans (by decide) (Nat.le_of_lt (isLetter_above_digits h))
  case blank   =>
    cases (Bool.or_eq_true ..).mp h
    case inl h => exact isBlank_alpha h
    case inr h =>
      obtain ⟨l, hm, hl⟩ := List.any_eq_true.1 h
      obtain ⟨hl, hh⟩ := Bool.and_eq_true_iff.1 hl
      exact isBlank_eq_false_of_range (letterRanges_apart l hm) (of_decide_eq_true hl)
        (of_decide_eq_true hh)

end Token

open Token

theorem AllDigits.isSeparator {ds : List Char} (h : AllDigits ds) : ∀ c ∈ ds, isSeparator c = false :=
  fun c hc => isSeparator_digit (h c hc)

theorem Numeral.isSeparator_sign (negative : Bool) : ∀ c ∈ sign negative, isSeparator c = false := by
  cases negative
  case false => exact List.forall_mem_nil _
  case true  => exact List.forall_mem_singleton.2 (by decide)

theorem Numeral.Plain.isSeparator {x : Numeral} :
    x.Plain → x.chars ≠ [] ∧ ∀ c ∈ x.chars, isSeparator c = false
  | integer h     => by
    have ⟨hn, hd⟩ := isDigitRun_iff.1 h
    exact ⟨List.append_ne_nil_of_right_ne_nil _ hn,
      List.forall_mem_append.2 ⟨isSeparator_sign _, hd.isSeparator⟩⟩
  | decimal h hf  => by
    have ⟨_, hd⟩ := isDigitRun_iff.1 h
    refine ⟨by simp [chars], List.forall_mem_append.2 ⟨isSeparator_sign _, ?_⟩⟩
    exact List.forall_mem_append.2 ⟨hd.isSeparator, List.forall_mem_cons.2 ⟨by decide, hf.isSeparator⟩⟩
  | ratio h h'    => by
    have ⟨_, hn⟩ := isDigitRun_iff.1 h
    have ⟨_, hd⟩ := isDigitRun_iff.1 h'
    refine ⟨by simp [chars], List.forall_mem_append.2 ⟨isSeparator_sign _, ?_⟩⟩
    exact List.forall_mem_append.2 ⟨hn.isSeparator, List.forall_mem_cons.2 ⟨by decide, hd.isSeparator⟩⟩

theorem Number.unbroken_text {v : Number} (h : v.WellFormed) : Unbroken v.text :=
  have ⟨hn, hs⟩ := v.spelling_plain.isSeparator
  ⟨toList_text h ▸ hn, toList_text h ▸ hs⟩

theorem unbroken_identifier {x : String} (h : isIdentifier x) : Unbroken x := by
  obtain ⟨hall, hany⟩ := Bool.and_eq_true_iff.1 h
  refine ⟨?ne_nil, fun c hc => ?isSeparator⟩
  case ne_nil =>
    intro hn
    rw [hn] at hany
    contradiction
  case isSeparator =>
    cases (Bool.or_eq_true ..).mp (List.all_eq_true.1 hall c hc)
    case inl h => exact of_decide_eq_true h ▸ rfl
    case inr h => exact isSeparator_letter h

theorem Operator.unbroken_symbol (op : Operator) : Unbroken op.symbol := by
  have h : op.symbol.toList.all (!isSeparator ·) := by cases op <;> decide
  exact ⟨by cases op <;> decide, fun c hc => by simpa using List.all_eq_true.1 h c hc⟩

namespace Term

-- The text of the operands is empty or begins with a blank.
theorem split_textAll (ts : List Term) {rest : List Char} (h : (split rest).1 = []) :
    (split ((textAll ts).toList ++ rest)).1 = [] := by
  cases ts
  case nil  => exact h
  case cons =>
    simp only [textAll, String.toList_append, List.append_assoc]
    exact split_fst_of_isSeparator (by decide)

theorem scanChars_word {s : String} (hs : Unbroken s) {rest : List Char} (h : (split rest).1 = []) :
    scanChars (s.toList ++ rest) = [s] ++ scanChars rest := by
  rw [scanChars_append h, hs.scanChars_eq]

mutual

theorem scanChars_text {rest : List Char} (hr : (split rest).1 = []) :
    (t : Term) → t.WellFormed → scanChars (t.text.toList ++ rest) = t.tokens ++ scanChars rest
  | literal _, .literal h       => scanChars_word (Number.unbroken_text h) hr
  | identifier _, .identifier h => scanChars_word (unbroken_identifier h) hr
  | operation op ts, .operation _ h => by
    have hc : (split (')' :: rest)).1 = [] := split_fst_of_isSeparator (by decide)
    calc scanChars ((operation op ts).text.toList ++ rest)
      _ = scanChars ('(' :: (op.symbol.toList ++ ((textAll ts).toList ++ ')' :: rest))) := by
        simp [text, opening, closing]
      _ = "(" :: (op.symbol :: (tokensAll ts ++ scanChars (')' :: rest))) := by
        rw [scanChars_bracket (by decide), scanChars_word op.unbroken_symbol (split_textAll ts hc),
          scanChars_textAll hc ts h]
        rfl
      _ = (operation op ts).tokens ++ scanChars rest := by
        rw [scanChars_bracket (by decide)]
        simp [tokens, opening, closing]

theorem scanChars_textAll {rest : List Char} (hr : (split rest).1 = []) : (ts : List Term) →
    (∀ t ∈ ts, t.WellFormed) → scanChars ((textAll ts).toList ++ rest) = tokensAll ts ++ scanChars rest
  | [], _      => rfl
  | t :: ts, h => by
    have ⟨ht, hts⟩ := List.forall_mem_cons.1 h
    calc scanChars ((textAll (t :: ts)).toList ++ rest)
      _ = scanChars (' ' :: (t.text.toList ++ ((textAll ts).toList ++ rest))) := by
        simp [textAll]
      _ = t.tokens ++ (tokensAll ts ++ scanChars rest) := by
        rw [scanChars_blank (by decide), scanChars_text (split_textAll ts hr) t ht,
          scanChars_textAll hr ts hts]
      _ = tokensAll (t :: ts) ++ scanChars rest :=
        (List.append_assoc ..).symm

end

theorem scan_text {t : Term} (h : t.WellFormed) : scan t.text = t.tokens := by
  have hs : scanChars (t.text.toList ++ []) = t.tokens ++ [] := scanChars_text rfl t h
  rwa [List.append_nil, List.append_nil] at hs

theorem text_injective {t u : Term} (ht : t.WellFormed) (hwt : t.Writable) (hu : u.WellFormed)
    (hwu : u.Writable) (h : u.text = t.text) : u = t := by
  have he : u.tokens = t.tokens := by rw [← scan_text hu, h, scan_text ht]
  have hd : Derives t.tokens u := he ▸ derives_tokens hu hwu
  exact hd.unique (derives_tokens ht hwt)

-- A term has both written forms, the tokens of the one are the other, and both readers make of them the
-- term again. So no two terms have the same text.
theorem text_agrees_with_tokens {t : Term} (h : t.WellFormed) (hw : t.Writable) :
    t.write = .ok t.text ∧ t.writeTokens = .ok t.tokens ∧ scan t.text = t.tokens ∧
      ofTokens (scan t.text) = .ok t ∧ ofTokensByStack (scan t.text) = .ok t ∧
        ∀ u : Term, u.WellFormed → u.Writable → u.text = t.text → u = t := by
  have hr : ofTokens (scan t.text) = .ok t := scan_text h ▸ (derives_tokens h hw).ofTokens_eq
  exact ⟨if_pos hw, writeTokens_eq hw, scan_text h, hr, ofTokensByStack_eq _ ▸ hr,
    fun _ hu hwu => text_injective h hw hu hwu⟩

-- An operation without operands inside another, and an identifier that begins like a number.
theorem text_agrees_with_tokens_nested :
    let t := operation .sub [literal (.rational ⟨-4, 1⟩), operation .ln [identifier "-größe"],
      operation .mul [], literal (.real ⟨-500000000000000⟩)]
    t.WellFormed ∧ t.Writable ∧ t.text = "(- -4/1 (ln -größe) (*) -0.5)" ∧
      scan t.text = ["(", "-", "-4/1", "(", "ln", "-größe", ")", "(", "*", ")", "-0.5", ")"] ∧
        ofTokens (scan t.text) = .ok t := by
  intro t
  have hf : t.WellFormed := by decide +kernel
  have hw : t.Writable := by decide +kernel
  have ⟨_, _, hs, hr, _⟩ := text_agrees_with_tokens hf hw
  exact ⟨hf, hw, by decide +kernel, hs.trans (by decide +kernel), hr⟩

end Term

end TermReduction
