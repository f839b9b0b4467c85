import TermReduction.Proofs.Numeral.Pattern
import TermReduction.Proofs.Term.Document
import TermReduction.Request

/-!
What the schemas let through, and what is refused behind them. A pattern for a whole text admits a line
break behind the text, while a number is read from the whole text and with nothing behind it.
-/

namespace TermReduction

open Numeral Pattern

-- A text of some kind, with or without a line break behind it.
inductive Line (p : String → Prop) : String → Prop
  | plain {w} : p w → Line p w
  | broken {w} : p w → Line p (w ++ "\n")

def EndsLine (s : String) : Prop :=
  s.toList.getLast? = some '\n'

instance (s : String) : Decidable (EndsLine s) :=
  inferInstanceAs (Decidable (_ = _))

-- At least one character, and no blanks.
def IsWord (s : String) : Prop :=
  s ≠ "" ∧ ∀ c ∈ s.toList, isBlank c = false

def SpellsNumber (s : String) : Prop :=
  Number.read? s ≠ .ok none

instance : DecidablePred SpellsNumber :=
  fun s => inferInstanceAs (Decidable (Number.read? s ≠ .ok none))

-- What stands behind the sign of a number in a term.
def TermDocument.isUnsignedNumeral (cs : List Char) : Bool :=
  cs.takeWhile Char.isDigit ≠ [] &&
    match cs.dropWhile Char.isDigit with
    | []      => true
    | c :: cs => (c = '.' || c = '/') && isDigitRun cs

section Patterns

variable {a : Pattern} {cs : List Char} {s : String} {p q : String → Prop}

theorem Line.imp (h : ∀ w, p w → q w) : Line p s → Line q s
  | plain hw  => plain (h _ hw)
  | broken hw => broken (h _ hw)

theorem Pattern.found_iff_line : a.Found s ↔ Line (fun w => a.Matches w.toList) s := by
  constructor
  case mp =>
    rintro (h | ⟨cs, h, hs⟩)
    · exact .plain h
    · have hw : s = String.ofList cs ++ "\n" := by
        rw [← String.toList_inj, hs, String.toList_append, String.toList_ofList]
        rfl
      exact hw ▸ .broken (by rwa [String.toList_ofList])
  case mpr =>
    rintro (h | h)
    · exact .inl h
    · exact .inr ⟨_, h, String.toList_append⟩

theorem Request.isTokenText_iff : isTokenText s ↔ tokenPattern.Found s := by
  rw [tokenPattern, found_iff (by decide), matches_some]
  simp [isTokenText]

theorem Request.isNumberText_iff : isNumberText s ↔ literalPattern.Found s := by
  rw [found_iff (by decide)]
  exact ofChars?_isSome_iff

theorem TermDocument.isPlainNumeral_eq : isPlainNumeral cs = isUnsignedNumeral (splitMinus cs).2 := by
  unfold isPlainNumeral
  split
  case h_1    => rfl
  case h_2 hn =>
    have hs : (splitMinus cs).2 = cs := congrArg Prod.snd (splitMinus.eq_2 _ hn)
    exact congrArg isUnsignedNumeral hs.symm

-- Both forms begin with digits, and differ in the character behind these.
theorem TermDocument.isPlainNumeral_iff : isPlainNumeral cs ↔ literalPattern.Matches cs := by
  have hc : ∀ {c}, (optional placesPattern).starts c ∨
      (seq (one (· = '/')) (Pattern.some Char.isDigit)).starts c → c.isDigit = false := by
    intro c h
    have h : c = '.' ∨ c = '/' := by simpa [placesPattern, starts, isNullable] using h
    obtain rfl | rfl := h <;> rfl
  rw [isPlainNumeral_eq, isUnsignedNumeral, literalPattern, Matches, ratioPattern,
    seq_minus fun _ => ne_minus_of_starts, seq_minus fun _ => ne_minus_of_starts,
    seq_some fun c h => hc (.inl h), seq_some fun c h => hc (.inr h), ← and_or_left,
    matches_optional, Bool.and_eq_true, decide_eq_true_eq]
  refine and_congr_right fun _ => ?_
  generalize (splitMinus cs).2.dropWhile Char.isDigit = ds
  cases ds
  case nil       => simp
  case cons d ds =>
    simp only [placesPattern, seq_one_cons, matches_digits]
    simp [or_and_right]

theorem TermDocument.isNumberText_iff : isNumberText s ↔ literalPattern.Found s := by
  rw [found_iff (by decide)]
  exact isPlainNumeral_iff

theorem isWord_iff : IsWord s ↔ Request.tokenPattern.Matches s.toList := by
  rw [Request.tokenPattern, matches_some]
  simp [IsWord]

theorem spellsNumber_iff : SpellsNumber s ↔ Request.literalPattern.Matches s.toList := by
  rw [SpellsNumber, ne_eq, Number.read?_eq_none_iff, ← ne_eq, Option.ne_none_iff_isSome]
  exact ofChars?_isSome_iff

-- The texts of numbers in a term are among those of a request.
theorem TermDocument.literalPattern_subset (h : literalPattern.Matches cs) :
    Request.literalPattern.Matches cs := by
  obtain ⟨xs, _, hx, ⟨ds, ps, hd, hp, rfl⟩, rfl⟩ | h := h
  case inr => exact .inr h
  case inl =>
    have hs : (optional (one isSign)).Matches xs :=
      hx.imp_right fun ⟨c, hc, h⟩ => ⟨c, by simp_all [isSign], h⟩
    have hn : (seq (optional (one (· = '.'))) (many Char.isDigit)).Matches ps := by
      obtain rfl | ⟨ys, zs, hy, hz, rfl⟩ := hp
      · exact ⟨[], [], .inl rfl, List.forall_mem_nil _, rfl⟩
      · exact ⟨ys, zs, .inr hy, (matches_some.1 hz).2, rfl⟩
    have hw : (seq (either pointedPattern placesPattern) (optional exponentPattern)).Matches (ds ++ ps) :=
      ⟨ds ++ ps, [], .inl ⟨ds, ps, hd, hn, rfl⟩, .inl rfl, List.append_nil _⟩
    exact .inl ⟨xs, ds ++ ps, hs, hw, rfl⟩

-- No number is spelt with a line break behind it.
theorem spellsNumber_iff_of_line (h : Line SpellsNumber s) : SpellsNumber s ↔ ¬EndsLine s := by
  constructor
  case mp =>
    intro hs he
    have := uses_of_matches (spellsNumber_iff.1 hs) '\n' (List.mem_of_getLast? he)
    contradiction
  case mpr =>
    intro he
    cases h
    case plain hs    => exact hs
    case broken w hs =>
      refine absurd ?_ he
      rw [EndsLine, String.toList_append]
      exact List.getLast?_concat

end Patterns

-- The texts with which a schema lets a document through, and the words that are refused behind it.
structure LetsThrough (names literals : List String) (refused : String → Prop) : Prop where
  line    : ∀ s ∈ literals, Line SpellsNumber s
  spells  : ∀ s ∈ literals, SpellsNumber s ↔ ¬EndsLine s
  refused : ∀ s, refused s → s ∈ names ∧ isIdentifier s = false ∨ s ∈ literals ∧ EndsLine s

variable {names literals : List String} {s : String}

theorem endsLine_of_line (h : Line SpellsNumber s) (hs : Number.read? s = .ok none) : EndsLine s :=
  not_not.1 <| mt (spellsNumber_iff_of_line h).2 fun h => h hs

theorem LetsThrough.of_refuses {refused : String → Prop} (hl : ∀ s ∈ literals, Line SpellsNumber s)
    (hr : ∀ s, refused s → RefusesWord names literals s) :
    LetsThrough names literals refused where
  line        := hl
  spells s h  := spellsNumber_iff_of_line (hl s h)
  refused s h :=
    match hr s h with
    | .name h hn    => .inl ⟨h, hn⟩
    | .literal h hn => .inr ⟨h, endsLine_of_line (hl s h) hn⟩

namespace Request

variable {j : Json} {r : Request}

theorem isTokenText_of_token? {t : String} (h : token? j = some t) : isTokenText t := by
  unfold token? at h
  split at h
  case h_2 => cases h
  case h_1 =>
    split at h <;> cases h
    assumption

theorem isNumberText_of_binding? {f : String × Json} {p : String × String}
    (h : binding? f = some p) : isNumberText p.2 := by
  unfold binding? at h
  split at h
  case h_2 => cases h
  case h_1 =>
    split at h <;> cases h
    case isTrue h => exact (Bool.and_eq_true_iff.1 h).2

-- What the schema asks of the texts of a request.
theorem texts_of_ofJson? (h : ofJson? j = some r) :
    (∀ t ∈ r.tokens, isTokenText t) ∧ ∀ p ∈ r.bindings, isNumberText p.2 := by
  unfold ofJson? at h
  split at h
  case h_2 => cases h
  case h_1 =>
    split at h
    case h_2 => cases h
    case h_1 =>
      split at h
      case isFalse => cases h
      case isTrue  =>
        simp only [Option.bind_eq_bind, Option.bind_eq_some_iff] at h
        obtain ⟨ts, ht, bs, hb, h⟩ := h
        cases h
        exact ⟨List.forall_mem_of_mapM_eq_some ht fun _ _ => isTokenText_of_token?,
          List.forall_mem_of_mapM_eq_some hb fun _ _ => isNumberText_of_binding?⟩

theorem refuses_of_readBindings (h : r.readBindings = .error (.invalidIdentifier s)) :
    RefusesWord (r.bindings.map Prod.fst) (r.bindings.map Prod.snd) s := by
  obtain ⟨p, hp, h⟩ := List.exists_of_mapM_eq_error h
  obtain h | ⟨_, _, h⟩ := Except.bind_eq_error.1 h
  case inr => cases h
  case inl =>
    unfold readBinding at h
    split at h
    case isTrue  => cases h
    case isFalse =>
      split at h
      case isTrue     =>
        have hl : p.2 ∈ r.bindings.map Prod.snd := List.mem_map_of_mem hp
        exact (TermDocument.refuses_of_read h).mono (List.nil_subset _)
          (List.cons_subset.2 ⟨hl, List.nil_subset _⟩)
      case isFalse hn =>
        cases h
        exact .name (List.mem_map_of_mem hp) (eq_false_of_ne_true hn)

theorem read_eq_ok_iff : read j = .ok r ↔ ofJson? j = some r := by
  unfold read
  cases ofJson? j <;> simp

end Request

namespace Schema

-- Every token let through is a word, and every literal spells a number, with or without a line break
-- behind it. With a line break it spells none, and this is the only fault that a literal can have. In turn
-- every text that spells a number is let through.
theorem letsThrough_texts (j : Json) (s : String) :
    (∀ r, Request.read j = .ok r →
      (∀ t ∈ r.tokens, Line IsWord t) ∧
      LetsThrough (r.bindings.map Prod.fst) (r.bindings.map Prod.snd)
        fun w => r.readBindings = .error (.invalidIdentifier w)) ∧
    (∀ d, TermDocument.read j = .ok d →
      LetsThrough d.names d.literals fun w => Term.ofJson j = .error (.invalidIdentifier w)) ∧
    (SpellsNumber s → Request.literalPattern.Found s) := by
  refine ⟨?request, ?term, fun hs => .inl (spellsNumber_iff.1 hs)⟩
  case request =>
    intro r h
    obtain ⟨ht, hb⟩ := Request.texts_of_ofJson? (Request.read_eq_ok_iff.1 h)
    refine ⟨fun t hm => ?word, .of_refuses ?line fun w => Request.refuses_of_readBindings⟩
    case word =>
      have hl := found_iff_line.1 (Request.isTokenText_iff.1 (ht t hm))
      exact hl.imp fun w => isWord_iff.2
    case line =>
      intro w hm
      obtain ⟨p, hp, rfl⟩ := List.mem_map.1 hm
      have hl := found_iff_line.1 (Request.isNumberText_iff.1 (hb p hp))
      exact hl.imp fun w => spellsNumber_iff.2
  case term =>
    intro d h
    have hd := TermDocument.read_eq_ok_iff.1 h
    refine .of_refuses ?line fun w hw => TermDocument.refuses_of_toTerm d ?refused
    case line =>
      intro w hm
      have hn := TermDocument.isNumberText_of_ofJson? d hd w hm
      have hl := found_iff_line.1 (TermDocument.isNumberText_iff.1 hn)
      exact hl.imp fun w hw => spellsNumber_iff.2 (TermDocument.literalPattern_subset hw)
    case refused => rwa [Term.ofJson, h] at hw

theorem letsThrough_texts_half :
    LetsThrough ["x"] ["-0.5\n"]
      (fun s => Request.readBindings ⟨["x\n"], [("x", "-0.5\n")]⟩ = .error (.invalidIdentifier s)) ∧
    LetsThrough [] ["1/2"]
      (fun s => Term.ofJson (.object [("kind", .string "literal"), ("value", .string "1/2")]) =
        .error (.invalidIdentifier s)) ∧
    Request.literalPattern.Found ".5e-1" := by
  have hr := letsThrough_texts (.object [("tokens", .array [.string "x\n"]),
    ("bindings", .object [("x", .string "-0.5\n")])]) ".5e-1"
  have ht := letsThrough_texts (.object [("kind", .string "literal"), ("value", .string "1/2")]) "1/2"
  have hd := ht.2.1 (.literal "1/2") <|
    TermDocument.read_eq_ok_iff.2 (TermDocument.Shows.literal rfl rfl rfl rfl).ofJson?_eq
  exact ⟨(hr.1 _ rfl).2, hd, hr.2.2 (by decide +kernel)⟩

-- The request is valid, and loading it refuses the literal as a word.
theorem literal_let_through_and_refused : ∃ r,
    Request.read (.object [("tokens", .array [.string "(", .string "+", .string "x", .string "1", .string ")"]),
      ("bindings", .object [("x", .string "1\n")])]) = .ok r ∧
    "1\n" ∈ r.bindings.map Prod.snd ∧ ¬SpellsNumber "1\n" ∧
    r.readBindings = .error (.invalidIdentifier "1\n") :=
  ⟨_, rfl, List.mem_cons_self, by decide, rfl⟩

end Schema

end TermReduction
