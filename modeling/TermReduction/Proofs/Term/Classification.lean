import TermReduction.Proofs.Numeral.Value
import TermReduction.Proofs.Term.Grammar
import TermReduction.Proofs.Term.Text

/-!
Every token is a number, an identifier or neither, and never two of these. Which one it is, and which
number, is a matter of the grammar of spelt numbers.
-/

namespace TermReduction

open Numeral

namespace Numeral

variable {cs : List Char} {r : Except Error Number}

-- A number that is spelt, and no other if an integer is.
def Spelt (cs : List Char) (r : Except Error Number) : Prop :=
  ∃ x : Numeral, x.Spells cs ∧
    (∀ negative ds, Spells (.integer negative ds) cs → x = .integer negative ds) ∧ x.Denotes r

theorem spelt_iff (h : ∀ x : Numeral, x.Spells cs → x.Readable) :
    (∃ x, ofChars? cs = some x ∧ x.read = r) ↔ Spelt cs r := by
  refine exists_congr fun x => ?_
  rw [ofChars?_eq_some_iff, and_assoc]
  exact and_congr_right fun hx => and_congr_right fun _ => read_eq_iff (h x hx)

theorem spelt_integer_iff {n : Int} : Spelt cs (.ok (.integer n)) ↔
    ∃ negative ds, Spells (.integer negative ds) cs ∧ (Numeral.integer negative ds).value = n := by
  constructor
  case mp =>
    rintro ⟨x, hx, _, hd⟩
    cases hd with
    | integer hv => exact ⟨_, _, hx, hv⟩
  case mpr =>
    rintro ⟨negative, ds, hx, hv⟩
    have hi := integer?_of_spells hx
    exact ⟨_, hx, fun _ _ h => Option.some.inj (hi.symm.trans (integer?_of_spells h)), .integer hv⟩

theorem spelt_real_iff {y : Fixed} : Spelt cs (.ok (.real y)) ↔
    (∀ negative ds, ¬Spells (.integer negative ds) cs) ∧
      ∃ negative whole fraction e, Spells (.decimal negative whole fraction e) cs ∧
        y = .nearest (Numeral.decimal negative whole fraction e).value := by
  constructor
  case mp =>
    rintro ⟨x, hx, hi, hd⟩
    cases hd with
    | decimal => exact ⟨fun _ _ h => Numeral.noConfusion (hi _ _ h), _, _, _, _, hx, rfl⟩
  case mpr =>
    rintro ⟨hi, negative, whole, fraction, e, hx, rfl⟩
    exact ⟨_, hx, fun _ _ h => absurd h (hi _ _), .decimal⟩

-- The slash is in no other spelling.
theorem spelt_of_ratio {negative : Bool} {n d : List Char} (h : Spells (.ratio negative n d) cs)
    (hr : (Numeral.ratio negative n d).Denotes r) : Spelt cs r :=
  have ⟨hx, hi⟩ := ofChars?_eq_some_iff.1 (ofChars?_of_ratio h)
  ⟨_, hx, hi, hr⟩

theorem spelt_rational_iff {q : Fraction} : Spelt cs (.ok (.rational q)) ↔
    ∃ negative n d, Spells (.ratio negative n d) cs ∧ positional d ≠ 0 ∧ q.Reduced ∧
      q.toRat = (Numeral.ratio negative n d).value := by
  constructor
  case mp =>
    rintro ⟨x, hx, _, hd⟩
    cases hd with
    | ratio hd hq hv => exact ⟨_, _, _, hx, hd, hq, hv⟩
  case mpr =>
    rintro ⟨negative, n, d, hx, hd, hq, hv⟩
    exact spelt_of_ratio hx (.ratio hd hq hv)

theorem spelt_error_iff {e : Error} : Spelt cs (.error e) ↔
    ∃ negative n d, Spells (.ratio negative n d) cs ∧ positional d = 0 ∧
      e = .domain (.number (.integer 0)) .differentFrom 0 := by
  constructor
  case mp =>
    rintro ⟨x, hx, _, hd⟩
    cases hd with
    | zeroDenominator hd => exact ⟨_, _, _, hx, hd, rfl⟩
  case mpr =>
    rintro ⟨negative, n, d, hx, hd, rfl⟩
    exact spelt_of_ratio hx (.zeroDenominator hd)

end Numeral

namespace Term

open Number (read? read?_identifier read?_eq_none_iff read?_eq_some_iff read?_eq_error_iff)

variable {s : String} {t : Term} {e : Error}

theorem ofToken_eq_ok_iff : ofToken s = .ok t ↔
    (∃ v, read? s = .ok (some v) ∧ t = literal v) ∨ isIdentifier s ∧ t = identifier s := by
  rw [ofToken_eq_ok, ofName_eq_ok]
  have hi : isIdentifier s → read? s = .ok none := read?_identifier
  simp only [eq_comm (a := t)]
  grind

theorem ofName_eq_error_iff :
    ofName s = .error e ↔ ¬isIdentifier s ∧ e = .invalidIdentifier s := by
  unfold ofName
  split
  case isTrue h  => simp [h]
  case isFalse h => simp [h, eq_comm]

theorem ofToken_eq_error_iff : ofToken s = .error e ↔ read? s = .error e ∨
    read? s = .ok none ∧ ¬isIdentifier s ∧ e = .invalidIdentifier s := by
  unfold ofToken
  cases read? s
  case error => simp
  case ok o  => cases o <;> simp [ofName_eq_error_iff]

theorem token_classification (s : String) :
    ((∀ x : Numeral, x.Spells s.toList → x.Readable) →
      (∀ n, read? s = .ok (some (.integer n)) ↔ ∃ negative ds,
        Spells (.integer negative ds) s.toList ∧ (Numeral.integer negative ds).value = n) ∧
      (∀ y, read? s = .ok (some (.real y)) ↔
        (∀ negative ds, ¬Spells (.integer negative ds) s.toList) ∧ ∃ negative whole fraction e,
          Spells (.decimal negative whole fraction e) s.toList ∧
            y = .nearest (Numeral.decimal negative whole fraction e).value) ∧
      (∀ q, read? s = .ok (some (.rational q)) ↔ ∃ negative n d,
        Spells (.ratio negative n d) s.toList ∧ positional d ≠ 0 ∧ q.Reduced ∧
          q.toRat = (Numeral.ratio negative n d).value) ∧
      (∀ e, read? s = .error e ↔ ∃ negative n d,
        Spells (.ratio negative n d) s.toList ∧ positional d = 0 ∧
          e = .domain (.number (.integer 0)) .differentFrom 0)) ∧
    (∀ x : Numeral, x.Spells s.toList → ¬x.Readable →
      read? s = .error .tooManyDigits ∨ read? s = .error .outOfRange) ∧
    (read? s = .ok none ↔ ∀ x : Numeral, ¬x.Spells s.toList) ∧
    (isIdentifier s → read? s = .ok none) ∧
    (∀ t, ofToken s = .ok t ↔
      (∃ v, read? s = .ok (some v) ∧ t = literal v) ∨ isIdentifier s ∧ t = identifier s) ∧
    (∀ e, ofToken s = .error e ↔ read? s = .error e ∨
      read? s = .ok none ∧ ¬isIdentifier s ∧ e = .invalidIdentifier s) := by
  refine ⟨fun hr => ?readable, fun x hx hn => ?unreadable,
    read?_eq_none_iff.trans ofChars?_eq_none_iff, read?_identifier, fun _ => ofToken_eq_ok_iff,
    fun _ => ofToken_eq_error_iff⟩
  case readable =>
    have hs {v : Number} : read? s = .ok (some v) ↔ Spelt s.toList (.ok v) :=
      read?_eq_some_iff.trans (spelt_iff hr)
    have he {e : Error} : read? s = .error e ↔ Spelt s.toList (.error e) :=
      read?_eq_error_iff.trans (spelt_iff hr)
    exact ⟨fun _ => hs.trans spelt_integer_iff, fun _ => hs.trans spelt_real_iff,
      fun _ => hs.trans spelt_rational_iff, fun _ => he.trans spelt_error_iff⟩
  case unreadable =>
    have hc := ofChars?_of_not_readable hx hn
    exact (read_eq_error hn).imp (fun h => read?_eq_error_iff.2 ⟨x, hc, h⟩)
      fun h => read?_eq_error_iff.2 ⟨x, hc, h⟩

-- A sign, no digit in front of the point, and a negative exponent.
theorem token_classification_places :
    (∀ x : Numeral, x.Spells "-.5e-3".toList → x.Readable) ∧
      read? "-.5e-3" = .ok (some (.real ⟨-500000000000⟩)) ∧
      ofToken "-.5e-3" = .ok (literal (.real ⟨-500000000000⟩)) := by
  have hl : "-.5e-3".toList = ['-'] ++ (['.', '5'] ++ 'e' :: (['-'] ++ ['3'])) := rfl
  have hd : isDigitRun ['3'] := rfl
  have he : Exponent (-3) ('e' :: (['-'] ++ ['3'])) := .marked (.inl rfl) (.minus .minus) hd
  have hs : Spells (.decimal true [] ['5'] (-3)) "-.5e-3".toList :=
    hl ▸ .decimal (.minus .minus) (.places rfl) he
  have hn (negative : Bool) (ds : List Char) : ¬Spells (.integer negative ds) "-.5e-3".toList := by
    intro h
    have hi : integer? "-.5e-3".toList = none := by decide +kernel
    nomatch hi.symm.trans (integer?_of_spells h)
  have hr : ∀ x : Numeral, x.Spells "-.5e-3".toList → x.Readable := by
    intro x hx
    have hx := ofChars?_eq_some_iff.2 ⟨hx, fun _ _ h => absurd h (hn _ _)⟩
    have hs := ofChars?_eq_some_iff.2 ⟨hs, fun _ _ h => absurd h (hn _ _)⟩
    exact Option.some.inj (hs.symm.trans hx) ▸ (by decide +kernel)
  have hv : (⟨-500000000000⟩ : Fixed) = .nearest (Numeral.decimal true [] ['5'] (-3)).value := by
    decide +kernel
  have ⟨hc, _, _, _, ht, _⟩ := token_classification "-.5e-3"
  have hread := ((hc hr).2.1 _).2 ⟨hn, _, _, _, _, hs, hv⟩
  exact ⟨hr, hread, (ht _).2 (.inl ⟨_, hread, rfl⟩)⟩

end Term

end TermReduction
