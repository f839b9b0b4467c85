import TermReduction.Proofs.Digits

/-!
How spelt numbers are recognised: a sign, a run of digits, and what may follow it. Characters among
which there is no digit spell no number.
-/

namespace TermReduction.Numeral

-- The sign of a canonical spelling.
def sign (negative : Bool) : List Char :=
  if negative then ['-'] else []

-- The characters of a spelling. Its exponent is left out.
def chars : Numeral → List Char
  | integer negative ds               => sign negative ++ ds
  | decimal negative whole fraction _ => sign negative ++ (whole ++ '.' :: fraction)
  | ratio negative n d                => sign negative ++ (n ++ '/' :: d)

-- A spelling with digits wherever there have to be some, and without an exponent.
inductive Plain : Numeral → Prop
  | integer {negative ds} : isDigitRun ds → Plain (.integer negative ds)
  | decimal {negative whole fraction} :
    isDigitRun whole → AllDigits fraction → Plain (.decimal negative whole fraction 0)
  | ratio {negative n d} : isDigitRun n → isDigitRun d → Plain (.ratio negative n d)

variable {negative : Bool} {ds : List Char}

theorem ne_sign_of_isDigit {c : Char} (h : c.isDigit) : c ≠ '-' ∧ c ≠ '+' := by
  constructor <;> (rintro rfl; contradiction)

-- A digit ends the sign.
theorem splitSign_sign (h : isDigitRun ds) (rest : List Char) :
    splitSign (sign negative ++ (ds ++ rest)) = (negative, ds ++ rest) := by
  have ⟨hne, hd⟩ := isDigitRun_iff.1 h
  cases ds
  case nil => contradiction
  case cons d ds =>
    have ⟨h₁, h₂⟩ := ne_sign_of_isDigit (hd d List.mem_cons_self)
    cases negative <;> simp [sign, splitSign, h₁, h₂]

theorem splitMinus_sign (h : isDigitRun ds) (rest : List Char) :
    splitMinus (sign negative ++ (ds ++ rest)) = (negative, ds ++ rest) := by
  have ⟨hne, hd⟩ := isDigitRun_iff.1 h
  cases ds
  case nil => contradiction
  case cons d ds =>
    have ⟨hm, _⟩ := ne_sign_of_isDigit (hd d List.mem_cons_self)
    cases negative <;> simp [sign, splitMinus, hm]

-- A run of digits goes as far as the first character that is none.
theorem takeWhile_run (h : AllDigits ds) {rest : List Char}
    (hr : ∀ c ∈ rest.head?, c.isDigit = false) : (ds ++ rest).takeWhile Char.isDigit = ds := by
  rw [List.takeWhile_append_of_pos h]
  cases rest <;> simp_all

theorem dropWhile_run (h : AllDigits ds) {rest : List Char}
    (hr : ∀ c ∈ rest.head?, c.isDigit = false) : (ds ++ rest).dropWhile Char.isDigit = rest := by
  rw [List.dropWhile_append_of_pos h]
  cases rest <;> simp_all

theorem takeWhile_digits (h : AllDigits ds) {c : Char} (hc : c.isDigit = false) (rest : List Char) :
    (ds ++ c :: rest).takeWhile Char.isDigit = ds :=
  takeWhile_run h (by simpa using hc)

theorem dropWhile_digits (h : AllDigits ds) {c : Char} (hc : c.isDigit = false) (rest : List Char) :
    (ds ++ c :: rest).dropWhile Char.isDigit = c :: rest :=
  dropWhile_run h (by simpa using hc)

theorem ofChars?_integer (h : isDigitRun ds) :
    ofChars? (sign negative ++ ds) = some (.integer negative ds) := by
  have hs := @splitSign_sign negative ds h []
  simp only [List.append_nil] at hs
  simp [ofChars?, integer?, hs, h]

-- Behind its digits an integer has nothing.
theorem integer?_eq_none (h : isDigitRun ds) {c : Char} (hc : c.isDigit = false)
    (rest : List Char) : integer? (sign negative ++ (ds ++ c :: rest)) = none := by
  simp [integer?, splitSign_sign h, isDigitRun, hc]

theorem ofChars?_decimal {fraction : List Char} (h : isDigitRun ds) (hf : AllDigits fraction) :
    ofChars? (sign negative ++ (ds ++ '.' :: fraction)) = some (.decimal negative ds fraction 0) := by
  have ⟨hne, hd⟩ := isDigitRun_iff.1 h
  have hp : '.'.isDigit = false := rfl
  have ht : fraction.takeWhile Char.isDigit = fraction := List.takeWhile_eq_self_iff.2 hf
  have he : fraction.dropWhile Char.isDigit = [] := List.dropWhile_eq_nil_iff.2 hf
  simp [ofChars?, integer?_eq_none h hp, decimal?, splitSign_sign h, takeWhile_digits hd hp,
    dropWhile_digits hd hp, splitFraction, ht, he, exponent?, hne]

theorem decimal?_eq_none (h : isDigitRun ds) (rest : List Char) :
    decimal? (sign negative ++ (ds ++ '/' :: rest)) = none := by
  have ⟨_, hd⟩ := isDigitRun_iff.1 h
  have hp : '/'.isDigit = false := rfl
  simp [decimal?, splitSign_sign h, takeWhile_digits hd hp, dropWhile_digits hd hp, splitFraction,
    exponent?]

theorem ofChars?_ratio {d : List Char} (h : isDigitRun ds) (hr : isDigitRun d) :
    ofChars? (sign negative ++ (ds ++ '/' :: d)) = some (.ratio negative ds d) := by
  have hp : '/'.isDigit = false := rfl
  have ⟨hne, hd⟩ := isDigitRun_iff.1 h
  have hs : ratio? (sign negative ++ (ds ++ '/' :: d)) = some (.ratio negative ds d) := by
    simp [ratio?, splitMinus_sign h, takeWhile_digits hd hp, dropWhile_digits hd hp, hne, hr]
  simp [ofChars?, integer?_eq_none h hp, decimal?_eq_none h, hs]

theorem ofChars?_chars {x : Numeral} : x.Plain → ofChars? x.chars = some x
  | .integer h   => ofChars?_integer h
  | .decimal h f => ofChars?_decimal h f
  | .ratio h d   => ofChars?_ratio h d

section NoDigit

variable {cs : List Char} (h : ∀ c ∈ cs, c.isDigit = false)

include h

theorem takeWhile_noDigit : cs.takeWhile Char.isDigit = [] := by
  cases cs <;> simp_all

theorem dropWhile_noDigit : cs.dropWhile Char.isDigit = cs := by
  cases cs <;> simp_all

theorem isDigitRun_noDigit : isDigitRun cs = false := by
  cases cs <;> simp_all [isDigitRun]

theorem splitSign_noDigit : ∀ c ∈ (splitSign cs).2, c.isDigit = false := by
  unfold splitSign
  split <;> simp_all

theorem splitFraction_noDigit : (splitFraction cs).1 = [] := by
  unfold splitFraction
  split
  case h_1 cs => exact takeWhile_noDigit fun c hc => h c <| List.mem_cons_of_mem _ hc
  case h_2    => rfl

theorem integer?_noDigit : integer? cs = none := by
  simp [integer?, isDigitRun_noDigit (splitSign_noDigit h)]

theorem decimal?_noDigit : decimal? cs = none := by
  have hs := splitSign_noDigit h
  simp [decimal?, takeWhile_noDigit hs, dropWhile_noDigit hs, splitFraction_noDigit hs]

theorem splitMinus_noDigit : ∀ c ∈ (splitMinus cs).2, c.isDigit = false := by
  unfold splitMinus
  split <;> simp_all

theorem ratio?_noDigit : ratio? cs = none := by
  have hs := splitMinus_noDigit h
  simp only [ratio?, takeWhile_noDigit hs, ne_eq, not_true_eq_false, false_and, if_false]
  split <;> rfl

theorem ofChars?_noDigit : ofChars? cs = none := by
  simp [ofChars?, integer?_noDigit h, decimal?_noDigit h, ratio?_noDigit h]

end NoDigit

end TermReduction.Numeral
