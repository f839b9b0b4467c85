import TermReduction.Proofs.Numeral.Grammar
import TermReduction.Proofs.Term.Grammar

/-!
Numbers that are read: they are well formed, and no integer in them is too long to be written.
-/

namespace TermReduction

open Numeral

theorem digitsValue_lt {ds : List Char} (h : AllDigits ds) : digitsValue ds < tenTo ds.length := by
  induction ds using List.reverseRecOn
  case nil               => decide
  case append_singleton ds c ih =>
    obtain ⟨hds, hc⟩ := List.forall_mem_append.1 h
    have hc := Char.isDigit_iff_toNat.1 (hc c List.mem_cons_self)
    have hv : digitsValue [c] = c.toNat - '0'.toNat := by
      simp [digitsValue, Nat.ofDigitChars_cons]
    have h9 : '9'.toNat = '0'.toNat + 9 := rfl
    have := ih hds
    rw [digitsValue_append, hv, List.length_append, List.length_singleton, tenTo_one, tenTo_succ]
    omega

theorem writable_applySign {n : Nat} (h : n < tenTo maxDigits) (negative : Bool) :
    Writable (applySign negative n) := by
  have hn : (applySign negative n).natAbs = n := by
    unfold applySign
    split <;> omega
  rwa [Writable, hn]

-- The divisor that is taken out makes the integers shorter.
theorem Fraction.writable_reduce {n d : Int} (hd : d ≠ 0) (hn : TermReduction.Writable n)
    (hw : TermReduction.Writable d) : (reduce n d).Writable := by
  have hs : ∀ m : Int, (d.sign * m).natAbs = m.natAbs := by
    intro m
    rw [Int.natAbs_mul, Int.natAbs_sign_of_ne_zero hd, Nat.one_mul]
  exact ⟨Nat.lt_of_le_of_lt (Int.natAbs_ediv_le_natAbs ..) (hs n ▸ hn),
    Nat.lt_of_le_of_lt (Int.natAbs_ediv_le_natAbs ..) (hs d ▸ hw)⟩

namespace Numeral

-- The runs of digits that are read as integers.
def runs : Numeral → List (List Char)
  | integer _ ds => [ds]
  | decimal ..   => []
  | ratio _ n d  => [n, d]

variable {cs ds : List Char} {x : Numeral} {v : Number}

theorem Spells.allDigits_runs : x.Spells cs → ∀ ds ∈ x.runs, AllDigits ds
  | .integer _ hd  => List.forall_mem_singleton.2 (isDigitRun_iff.1 hd).2
  | .decimal ..    => List.forall_mem_nil _
  | .ratio _ hn hd => List.forall_mem_cons.2
    ⟨(isDigitRun_iff.1 hn).2, List.forall_mem_singleton.2 (isDigitRun_iff.1 hd).2⟩

theorem readDigits_writable (h : AllDigits ds) {n : Nat} (hn : readDigits ds = .ok n) :
    n < tenTo maxDigits := by
  unfold readDigits at hn
  split at hn <;> cases hn
  case isTrue hl => exact Nat.lt_of_lt_of_le (digitsValue_lt h) (tenTo_le hl)

theorem readInteger_writable (h : AllDigits ds) {negative : Bool} {n : Int}
    (hn : readInteger negative ds = .ok n) : Writable n := by
  unfold readInteger at hn
  cases hd : readDigits ds <;> rw [hd] at hn <;> cases hn
  exact writable_applySign (readDigits_writable h hd) negative

theorem read_writable (h : ∀ ds ∈ x.runs, AllDigits ds) (hv : x.read = .ok v) : v.Writable := by
  cases x <;> simp only [read, Except.bind_eq_ok, Except.pure_eq_ok, Except.ok.injEq] at hv
  case integer =>
    obtain ⟨n, hn, rfl⟩ := hv
    exact readInteger_writable (h _ List.mem_cons_self) hn
  case decimal =>
    obtain ⟨_, _, rfl⟩ := hv
    trivial
  case ratio =>
    obtain ⟨n, hn, d, hd, q, hq, rfl⟩ := hv
    obtain ⟨h₁, h₂⟩ := List.forall_mem_cons.1 h
    unfold Fraction.ofRatio at hq
    split at hq <;> cases hq
    case isFalse hz =>
      have hw : TermReduction.Writable (d : Int) := readDigits_writable (h₂ _ List.mem_cons_self) hd
      exact Fraction.writable_reduce hz (readInteger_writable h₁ hn) hw

end Numeral

namespace Number

variable {s : String} {v : Number}

theorem wellFormed_of_read (h : read s = .ok v) : v.WellFormed := by
  unfold read at h
  split at h
  case h_1     => cases h
  case h_2 x _ => exact Numeral.read_wellFormed h

theorem writable_of_read (h : read s = .ok v) : v.Writable := by
  unfold read at h
  split at h
  case h_1      => cases h
  case h_2 x hx => exact read_writable (spells_of_ofChars? hx).allDigits_runs h

end Number

end TermReduction
