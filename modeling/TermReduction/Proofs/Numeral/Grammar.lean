import TermReduction.Numeral.Grammar
import TermReduction.Proofs.Numeral.Pattern

/-!
Reading recognises the grammar of spelt numbers and nothing else. What is spelt as an integer is read as
one, also if it spells a decimal too.
-/

namespace TermReduction

open Numeral

theorem digitsValue_eq : (ds : List Char) → digitsValue ds = positional ds
  | []      => rfl
  | d :: ds => by
    have hd : digitsValue [d] = d.toNat - '0'.toNat := by simp [digitsValue, Nat.ofDigitChars_cons]
    rw [← List.singleton_append, digitsValue_append, hd, digitsValue_eq ds]
    rfl

namespace Numeral

variable {negative : Bool} {s m cs ds whole fraction : List Char} {e : Int} {x : Numeral}

theorem splitMinus_spec (cs : List Char) :
    ∃ s, Minus (splitMinus cs).1 s ∧ s ++ (splitMinus cs).2 = cs := by
  unfold splitMinus
  split
  case h_1 => exact ⟨['-'], .minus, rfl⟩
  case h_2 => exact ⟨[], .none, rfl⟩

theorem splitSign_spec (cs : List Char) :
    ∃ s, Sign (splitSign cs).1 s ∧ s ++ (splitSign cs).2 = cs := by
  unfold splitSign
  split
  case h_1 => exact ⟨['-'], .minus .minus, rfl⟩
  case h_2 => exact ⟨['+'], .plus, rfl⟩
  case h_3 => exact ⟨[], .minus .none, rfl⟩

theorem Minus.eq_sign : Minus negative s → s = sign negative
  | .none  => rfl
  | .minus => rfl

-- The sign ends in front of what is no sign itself.
theorem Sign.split (hs : Sign negative s) (h : ∀ c ∈ cs.head?, isSign c = false) :
    splitSign (s ++ cs) = (negative, cs) := by
  rcases hs with ⟨_ | _⟩ | _
  · unfold splitSign
    split <;> simp_all [isSign]
  · rfl
  · rfl

theorem isSign_run (h : isDigitRun ds) (rest : List Char) :
    ∀ c ∈ (ds ++ rest).head?, isSign c = false := by
  have ⟨hne, hd⟩ := isDigitRun_iff.1 h
  cases ds
  case nil       => contradiction
  case cons d ds => simpa using isSign_of_isDigit (hd d List.mem_cons_self)

theorem integer?_eq_some_iff :
    integer? cs = some x ↔ ∃ negative ds, x = .integer negative ds ∧ x.Spells cs := by
  constructor
  case mp =>
    intro h
    simp only [integer?, Option.ite_none_right_eq_some, Option.some.injEq] at h
    obtain ⟨hd, rfl⟩ := h
    obtain ⟨s, hs, he⟩ := splitSign_spec cs
    have hx := Spells.integer hs hd
    rw [he] at hx
    exact ⟨_, _, rfl, hx⟩
  case mpr =>
    rintro ⟨negative, ds, rfl, h⟩
    cases h with
    | integer hs hd =>
      have hr := isSign_run hd []
      rw [List.append_nil] at hr
      simp [integer?, hs.split hr, hd]

theorem exponent?_eq_some_iff : exponent? cs = some e ↔ Exponent e cs := by
  constructor
  case mp =>
    intro h
    unfold exponent? at h
    split at h
    case h_1 => exact Option.some.inj h ▸ .none
    case h_2 c cs =>
      simp only [Option.ite_none_right_eq_some, Option.some.injEq] at h
      obtain ⟨⟨hc, hd⟩, rfl⟩ := h
      obtain ⟨s, hs, he⟩ := splitSign_spec cs
      have hx := Exponent.marked hc hs hd
      rwa [he, ← digitsValue_eq] at hx
  case mpr =>
    intro h
    cases h with
    | none              => rfl
    | marked hc hs hd =>
      have hr := isSign_run hd []
      rw [List.append_nil] at hr
      simp [exponent?, hs.split hr, hc, hd, digitsValue_eq]

-- An exponent begins with what ends the digits in front of it.
theorem Exponent.head : Exponent e cs → ∀ c ∈ cs.head?, c.isDigit = false ∧ c ≠ '.'
  | .none          => by simp
  | .marked hc _ _ => by rcases hc with rfl | rfl <;> simp

theorem splitFraction_head (h : ∀ c ∈ cs.head?, c ≠ '.') : splitFraction cs = ([], cs) := by
  cases cs
  case nil       => rfl
  case cons c cs => exact splitFraction_of_ne (h c rfl)

-- Digits, a point and further digits are split off as they stand in the grammar.
theorem Mantissa.split (hm : Mantissa whole fraction m)
    (h : ∀ c ∈ cs.head?, c.isDigit = false ∧ c ≠ '.') :
    (m ++ cs).takeWhile Char.isDigit = whole ∧
      splitFraction ((m ++ cs).dropWhile Char.isDigit) = (fraction, cs) := by
  have hd : ∀ c ∈ cs.head?, c.isDigit = false := fun c hc => (h c hc).1
  cases hm with
  | whole hw =>
    have hw := (isDigitRun_iff.1 hw).2
    rw [takeWhile_run hw hd, dropWhile_run hw hd]
    exact ⟨rfl, splitFraction_head fun c hc => (h c hc).2⟩
  | pointed hw hf =>
    have hw := (isDigitRun_iff.1 hw).2
    rw [List.append_assoc, List.cons_append, takeWhile_digits hw rfl, dropWhile_digits hw rfl,
      splitFraction, takeWhile_run hf hd, dropWhile_run hf hd]
    exact ⟨rfl, rfl⟩
  | places hf =>
    have hf := (isDigitRun_iff.1 hf).2
    show [] = [] ∧ splitFraction ('.' :: (fraction ++ cs)) = _
    rw [splitFraction, takeWhile_run hf hd, dropWhile_run hf hd]
    exact ⟨rfl, rfl⟩

theorem allDigits_takeWhile (cs : List Char) : AllDigits (cs.takeWhile Char.isDigit) :=
  fun _ => List.all_eq_true.1 List.all_takeWhile _

theorem splitFraction_spec (cs : List Char) :
    splitFraction cs = ([], cs) ∨
      AllDigits (splitFraction cs).1 ∧ '.' :: ((splitFraction cs).1 ++ (splitFraction cs).2) = cs := by
  unfold splitFraction
  split
  case h_1 => exact .inr ⟨allDigits_takeWhile _, by rw [List.takeWhile_append_dropWhile]⟩
  case h_2 => exact .inl rfl

theorem mantissa_spec (h : ¬(cs.takeWhile Char.isDigit = [] ∧
      (splitFraction (cs.dropWhile Char.isDigit)).1 = [])) :
    ∃ m, Mantissa (cs.takeWhile Char.isDigit) (splitFraction (cs.dropWhile Char.isDigit)).1 m ∧
      m ++ (splitFraction (cs.dropWhile Char.isDigit)).2 = cs := by
  have hw := allDigits_takeWhile cs
  have hs := @List.takeWhile_append_dropWhile _ Char.isDigit cs
  generalize cs.takeWhile Char.isDigit = whole at *
  generalize cs.dropWhile Char.isDigit = rest at *
  rcases splitFraction_spec rest with hr | ⟨hf, hr⟩
  · rw [hr] at h ⊢
    exact ⟨whole, .whole (isDigitRun_iff.2 ⟨fun hn => h ⟨hn, rfl⟩, hw⟩), hs⟩
  · by_cases hn : whole = []
    case pos =>
      rw [hn, List.nil_append] at hs
      rw [hn]
      exact ⟨_, .places (isDigitRun_iff.2 ⟨fun hf => h ⟨hn, hf⟩, hf⟩), hr.trans hs⟩
    case neg =>
      refine ⟨_, .pointed (isDigitRun_iff.2 ⟨hn, hw⟩) hf, ?_⟩
      rw [List.append_assoc, List.cons_append, hr, hs]

theorem decimal?_eq_some_iff : decimal? cs = some x ↔
    ∃ negative whole fraction e, x = .decimal negative whole fraction e ∧ x.Spells cs := by
  constructor
  case mp =>
    intro h
    simp only [decimal?, Option.ite_none_left_eq_some, Option.map_eq_some_iff] at h
    obtain ⟨hn, e, he, rfl⟩ := h
    obtain ⟨s, hs, hc⟩ := splitSign_spec cs
    obtain ⟨m, hm, hr⟩ := mantissa_spec hn
    have hx := Spells.decimal hs hm (exponent?_eq_some_iff.1 he)
    rw [hr, hc] at hx
    exact ⟨_, _, _, _, rfl, hx⟩
  case mpr =>
    rintro ⟨negative, whole, fraction, e, rfl, h⟩
    cases h with
    | @decimal _ _ _ _ s m x hs hm he =>
      obtain ⟨ht, hd⟩ := hm.split he.head
      have hn : ¬(whole = [] ∧ fraction = []) := by
        rintro ⟨rfl, rfl⟩
        cases hm <;> contradiction
      have hh : ∀ c ∈ (m ++ x).head?, isSign c = false := by
        cases hm with
        | whole hw       => exact isSign_run hw x
        | pointed hw _ =>
          rw [List.append_assoc]
          exact isSign_run hw _
        | places         => simp [isSign]
      simp [decimal?, hs.split hh, ht, hd, hn, exponent?_eq_some_iff.2 he]

theorem spells_of_ratio? (h : ratio? cs = some x) : x.Spells cs := by
  unfold ratio? at h
  simp only at h
  split at h
  case h_2 => contradiction
  case h_1 d hd =>
    simp only [Option.ite_none_right_eq_some, Option.some.injEq] at h
    obtain ⟨⟨hn, hr⟩, rfl⟩ := h
    obtain ⟨s, hs, hc⟩ := splitMinus_spec cs
    have hx := Spells.ratio hs (isDigitRun_iff.2 ⟨hn, allDigits_takeWhile _⟩) hr
    rwa [← hd, List.takeWhile_append_dropWhile, hc] at hx

theorem integer?_of_spells (h : Spells (.integer negative ds) cs) :
    integer? cs = some (.integer negative ds) :=
  integer?_eq_some_iff.2 ⟨negative, ds, rfl, h⟩

theorem ofChars?_of_ratio {n d : List Char} (h : Spells (.ratio negative n d) cs) :
    ofChars? cs = some (.ratio negative n d) := by
  cases h with
  | ratio hs hn hd => exact hs.eq_sign ▸ ofChars?_ratio hn hd

theorem spells_of_ofChars? (h : ofChars? cs = some x) : x.Spells cs := by
  simp only [ofChars?, Option.orElse_eq_orElse, Option.orElse_eq_or, Option.or_eq_some_iff] at h
  rcases h with h | ⟨_, h | ⟨_, h⟩⟩
  · obtain ⟨_, _, _, hx⟩ := integer?_eq_some_iff.1 h
    exact hx
  · obtain ⟨_, _, _, _, _, hx⟩ := decimal?_eq_some_iff.1 h
    exact hx
  · exact spells_of_ratio? h

-- A text that spells an integer is read as that integer. Every other text spells one number at most.
theorem ofChars?_eq_some_iff : ofChars? cs = some x ↔
    x.Spells cs ∧ ∀ negative ds, Spells (.integer negative ds) cs → x = .integer negative ds := by
  constructor
  case mp =>
    intro h
    refine ⟨spells_of_ofChars? h, fun negative ds hs => ?_⟩
    simpa [ofChars?, integer?_of_spells hs] using h.symm
  case mpr =>
    rintro ⟨hx, h⟩
    cases x
    case integer => simp [ofChars?, integer?_of_spells hx]
    case ratio   => exact ofChars?_of_ratio hx
    case decimal =>
      have hd := decimal?_eq_some_iff.2 ⟨_, _, _, _, rfl, hx⟩
      have hi : integer? cs = none := by
        refine Option.eq_none_iff_forall_ne_some.2 fun y hy => ?_
        obtain ⟨negative, ds, rfl, hs⟩ := integer?_eq_some_iff.1 hy
        exact Numeral.noConfusion (h negative ds hs)
      simp [ofChars?, hi, hd]

-- An integer is a decimal without a point and without an exponent.
theorem Spells.decimal_of_integer :
    Spells (.integer negative ds) cs → Spells (.decimal negative ds [] 0) cs
  | .integer hs hd => by
    have hx := Spells.decimal hs (.whole hd) .none
    rwa [List.append_nil] at hx

theorem exponent_eq_zero (h : Spells (.integer negative ds) cs) {negative' : Bool}
    (hx : Spells (.decimal negative' whole fraction e) cs) : e = 0 := by
  have hi := decimal?_eq_some_iff.2 ⟨_, _, _, _, rfl, h.decimal_of_integer⟩
  have hd := decimal?_eq_some_iff.2 ⟨_, _, _, _, rfl, hx⟩
  have he := Option.some.inj (hd.symm.trans hi)
  injection he

-- Where a number is spelt that cannot be read, no other one is read in its place.
theorem ofChars?_of_not_readable (hx : x.Spells cs) (h : ¬x.Readable) : ofChars? cs = some x := by
  cases x
  case integer => simp [ofChars?, integer?_of_spells hx]
  case ratio   => exact ofChars?_of_ratio hx
  case decimal =>
    exact ofChars?_eq_some_iff.2 ⟨hx, fun _ _ hi => absurd (.inl (exponent_eq_zero hi hx)) h⟩

theorem ofChars?_eq_none_iff : ofChars? cs = none ↔ ∀ x : Numeral, ¬x.Spells cs := by
  constructor
  case mp =>
    intro hn x hx
    by_cases hi : ∃ negative ds, Spells (.integer negative ds) cs
    case pos =>
      obtain ⟨negative, ds, hs⟩ := hi
      simp [ofChars?, integer?_of_spells hs] at hn
    case neg =>
      have hs := ofChars?_eq_some_iff.2 ⟨hx, fun negative ds h => absurd ⟨negative, ds, h⟩ hi⟩
      simp [hn] at hs
  case mpr =>
    intro h
    exact Option.eq_none_iff_forall_ne_some.2 fun x hx => h x (spells_of_ofChars? hx)

end Numeral

end TermReduction
