import TermReduction.Proofs.Binary64.Logarithm
import TermReduction.Proofs.Binary64.Shortest

/-!
Integers below 2⁵³ are binary numbers. Rounding leaves them and their sums alone, and their shortest
decimals are integers again, the same ones.
-/

namespace TermReduction.Binary64

section Rounding

variable {n d n' d' : Nat}

-- Rounding sees the quotient and not how it is written.
theorem ofNatRatio_congr (hd : 0 < d) (hd' : 0 < d') (h : n * d' = n' * d) :
    ofNatRatio n d = ofNatRatio n' d' := by
  rcases Nat.eq_zero_or_pos n with rfl | hn
  · have hn' : n' = 0 := (Nat.mul_eq_zero.1 (h.symm.trans (Nat.zero_mul _))).resolve_right hd.ne'
    simp [ofNatRatio, hn']
  · have hn' : 0 < n' := Nat.pos_of_mul_pos_right (h ▸ Nat.mul_pos hn hd')
    have hq : (n / d : Rat) = n' / d' := by
      rw [div_eq_div_iff (Nat.cast_pos.2 hd).ne' (Nat.cast_pos.2 hd').ne']
      exact_mod_cast h
    have he : quantum n d = quantum n' d' := by
      rw [quantum, quantum, floorLog2_eq hn hd, floorLog2_eq hn' hd', hq]
    have hs : steps n d = steps n' d' :=
      Nat.le_antisymm (steps_mono hd hd' h.le he) (steps_mono hd' hd h.ge he.symm)
    rw [ofNatRatio_eq hn hd, ofNatRatio_eq hn' hd', hs, he]

-- A natural number that needs no more bits than there are.
theorem toRat_ofNatRatio_one (h : n < twoTo precision) : (ofNatRatio n 1).toRat = n := by
  rcases Nat.eq_zero_or_pos n with rfl | hn
  · simp [ofNatRatio, zero, toRat]
  · have hq : quantum n 1 ≤ 0 := by
      have hlt : ((n : Rat) / (1 : Nat)) < 2 ^ (precision : Int) := by
        rw [Nat.cast_one, div_one, zpow_natCast]
        exact_mod_cast h
      have hl := (Int.lt_zpow_iff_log_lt Nat.one_lt_two (by positivity)).1 hlt
      rw [quantum, floorLog2_eq hn Nat.one_pos, leastExponent, precision] at *
      omega
    obtain ⟨k, hk⟩ := Int.exists_eq_neg_ofNat hq
    have hs : steps n 1 = n * twoTo k := by
      have hr := roundHalfEven_of_dvd (Nat.one_dvd (n * twoTo k))
      rw [Nat.mul_one] at hr
      rw [steps, hk, Int.neg_neg, Int.toNat_natCast, Int.toNat_neg_natCast]
      exact hr
    have hp : (twoTo k : Rat) ≠ 0 := Nat.cast_ne_zero.2 (twoTo_pos k).ne'
    have hc : (2 : Rat) ^ (-k : Int) = (twoTo k : Rat)⁻¹ := by
      rw [zpow_neg, zpow_natCast, twoTo, Nat.pow_eq, Nat.cast_pow, Nat.cast_ofNat]
    rw [toRat_ofNatRatio hn Nat.one_pos, hs, hk, hc, Nat.cast_mul, mul_inv_cancel_right₀ hp]

theorem ofRatio_congr {n n' : Int} (hd : 0 < d) (hd' : 0 < d') (h : n * d' = n' * d) :
    ofRatio n d = ofRatio n' d' := by
  have hs : n.sign = n'.sign := by
    have hs := congrArg Int.sign h
    rwa [Int.sign_mul, Int.sign_mul, Int.sign_natCast_of_ne_zero hd.ne', Int.sign_natCast_of_ne_zero hd'.ne',
      Int.mul_one, Int.mul_one] at hs
  have ha : n.natAbs * d' = n'.natAbs * d := by
    have ha := congrArg Int.natAbs h
    rwa [Int.natAbs_mul, Int.natAbs_mul, Int.natAbs_natCast, Int.natAbs_natCast] at ha
  rw [ofRatio, ofRatio, hs, Int.natAbs_natCast, Int.natAbs_natCast, ofNatRatio_congr hd hd' ha,
    Int.sign_natCast_of_ne_zero hd.ne', Int.sign_natCast_of_ne_zero hd'.ne']

-- Neither does the reading of decimals see how they are written.
theorem ofDecimal_congr {x y : Decimal} (h : x.toRat = y.toRat) : ofDecimal x = ofDecimal y := by
  by_cases hx : x.coefficient = 0
  case pos =>
    have hy : y.coefficient = 0 := by
      rwa [← Decimal.toRat_eq_zero, ← h, Decimal.toRat_eq_zero]
    rw [ofDecimal_eq_zero hx, ofDecimal_eq_zero hy]
  case neg =>
    have hq : x.coefficient * (tenTo x.exponent.toNat : Nat) * (tenTo (-y.exponent).toNat : Nat) =
        y.coefficient * (tenTo y.exponent.toNat : Nat) * (tenTo (-x.exponent).toNat : Nat) := by
      have hp (k : Nat) : ((tenTo k : Nat) : Rat) ≠ 0 := Nat.cast_ne_zero.2 (tenTo_pos k).ne'
      rw [Decimal.toRat, Decimal.toRat, ten_zpow_eq_div, ten_zpow_eq_div, mul_div_assoc', mul_div_assoc',
        div_eq_div_iff (hp _) (hp _)] at h
      exact_mod_cast h
    rw [ofDecimal, ofDecimal, Decimal.leadingExponent_congr hx h, scaleUp_eq, scaleUp_eq,
      ofRatio_congr (tenTo_pos _) (tenTo_pos _) hq]

end Rounding

section OfInt

variable {k : Int} {n : Nat} {x y : Binary64}

theorem ofInt_natCast (n : Nat) : ofInt n = ofNatRatio n 1 := by
  rw [ofInt, ← Nat.cast_one, ofRatio_natCast]

theorem toRat_ofInt (h : k.natAbs < twoTo precision) : (ofInt k).toRat = k := by
  obtain ⟨n, rfl | rfl⟩ := k.eq_nat_or_neg
  case inl => rw [ofInt_natCast, toRat_ofNatRatio_one (by simpa using h), Int.cast_natCast]
  case inr =>
    rcases Nat.eq_zero_or_pos n with rfl | hn
    · simpa using toRat_ofInt_zero
    · rw [ofInt_neg hn, toRat_neg, ofInt_natCast, toRat_ofNatRatio_one (by simpa using h), Int.cast_neg,
        Int.cast_natCast]

theorem ofRatio_eq_ofInt {s : Int} {d : Nat} (hd : 0 < d) (h : s = k * d) : ofRatio s d = ofInt k := by
  have hs : s.sign * (d : Int).sign = k.sign * (1 : Int).sign := by
    rw [h, Int.sign_mul, Int.sign_eq_one_of_pos (Int.natCast_pos.2 hd)]
    simp
  have hn : ofNatRatio s.natAbs (d : Int).natAbs = ofNatRatio k.natAbs (1 : Int).natAbs := by
    refine ofNatRatio_congr (by simpa using hd) Nat.one_pos ?_
    rw [h, Int.natAbs_mul, Int.natAbs_one, Nat.mul_one]
  rw [ofInt, ofRatio, ofRatio, hs, hn]

theorem ofDyadic_eq_ofInt {s e : Int} (h : (s * 2 ^ e : Rat) = k) : ofDyadic s e = ofInt k := by
  refine ofRatio_eq_ofInt (twoTo_pos _) ?_
  have hp : ((2 ^ (-e).toNat : Nat) : Rat) ≠ 0 := by positivity
  have hz := zpow_eq_div Nat.two_pos e
  rw [Nat.cast_ofNat] at hz
  rw [hz, ← mul_div_assoc, div_eq_iff hp] at h
  exact_mod_cast h

-- A sum that is an integer is the one that any other computation of that integer gives.
theorem add_eq_ofInt (h : x.toRat + y.toRat = k) : x + y = ofInt k := by
  refine ofDyadic_eq_ofInt ?_
  rw [Int.cast_add, add_mul, x.toRat_at (Int.min_le_left ..), y.toRat_at (Int.min_le_right ..), h]

end OfInt

section Shortest

variable {k : Int} {m n : Nat} {x : Binary64} {y : Decimal}

theorem ofDecimal_eq_ofInt (hn : 0 < n) (h : y.toRat = n) : ofDecimal y = ofInt n := by
  have h₁ : 1 ≤ y.toRat := by
    rw [h]
    exact_mod_cast hn
  have hc := Decimal.coefficient_pos (one_pos.trans_le h₁)
  have hp : ((tenTo (-y.exponent).toNat : Nat) : Rat) ≠ 0 := Nat.cast_ne_zero.2 (tenTo_pos _).ne'
  rw [ofDecimal_eq h₁, ofInt_natCast]
  refine ofNatRatio_congr (tenTo_pos _) Nat.one_pos ?_
  rw [Decimal.toRat_eq_div hc.le, div_eq_iff hp] at h
  rw [Nat.mul_one]
  exact_mod_cast h

-- No other integer reads back as a number that is not rounded.
theorem eq_of_ofDecimal_eq_ofInt (hb : n < twoTo precision) (hy : y.toRat = m)
    (h : ofDecimal y = ofInt n) : m = n := by
  have hv : (ofDecimal y).toRat = n := by
    rw [h]
    exact_mod_cast toRat_ofInt (by simpa using hb)
  rcases Nat.eq_zero_or_pos m with rfl | hm
  · have hz : ofDecimal y = zero := ofDecimal_eq_zero (Decimal.toRat_eq_zero.1 (by simpa using hy))
    have h₀ : zero.toRat = 0 := by simp [zero, toRat]
    rw [hz, h₀] at hv
    exact_mod_cast hv
  · rw [ofDecimal_eq_ofInt hm hy] at hv
    rcases Nat.lt_or_ge m (twoTo precision) with hlt | hge
    · rw [toRat_ofInt (by simpa using hlt)] at hv
      exact_mod_cast hv
    · -- beyond the exact integers there is rounding, but not below the first of them
      have hp : (ofNatRatio (twoTo precision) 1).toRat = twoTo precision := by
        have hr : ofNatRatio (twoTo precision) 1 = ⟨twoTo (precision - 1), 1⟩ := rfl
        rw [hr, toRat]
        norm_num [twoTo, precision]
      have hle : (ofNatRatio (twoTo precision) 1).toRat ≤ (ofNatRatio m 1).toRat :=
        ofNatRatio_mono Nat.one_pos Nat.one_pos (by simpa using hge)
      rw [hp, ← ofInt_natCast, hv, Nat.cast_le] at hle
      exact absurd hb (Nat.not_lt.2 hle)

theorem toRat_scaled_natCast {c : Nat} {e : Int} (he : 0 ≤ e) :
    (Decimal.scaled c e).toRat = (c * tenTo e.toNat : Nat) := by
  show ((c : Int) : Rat) * 10 ^ e = _
  rw [Int.cast_natCast, Nat.cast_mul, cast_tenTo he]

-- On a grid of integers nothing but the number itself reads back.
theorem toRat_readBackAt? {d : Nat} {e : Int} (hb : n < twoTo precision) (he : 0 ≤ e)
    (h : readBackAt? (ofInt n) (n * d) d e = some y) : y.toRat = n := by
  have hr := ofDecimal_of_readBackAt? h
  have hy : ∃ c : Nat, y = .scaled c e := by
    have hm := List.mem_of_find?_eq_some h
    simp only [List.mem_cons, List.not_mem_nil, or_false] at hm
    rcases hm with rfl | rfl | rfl
    · exact ⟨_, rfl⟩
    · exact ⟨_, rfl⟩
    · exact ⟨_, rfl⟩
  obtain ⟨c, rfl⟩ := hy
  rw [toRat_scaled_natCast he, eq_of_ofDecimal_eq_ofInt hb (toRat_scaled_natCast he) hr]

theorem readBackAt?_zero {d : Nat} (hn : 0 < n) (hd : 0 < d) :
    readBackAt? (ofInt n) (n * d) d 0 = some (.scaled n 0) := by
  have hr : roundHalfEven (n * d * tenTo (-0 : Int).toNat) (d * tenTo (0 : Int).toNat) = n := by
    have h₀ : ∀ m : Nat, m * tenTo 0 = m := Nat.mul_one
    have hm := roundHalfEven_of_dvd (Nat.dvd_mul_left d n)
    rw [Int.neg_zero, Int.toNat_zero, h₀, h₀]
    exact Nat.eq_of_mul_eq_mul_right hd hm
  have hs : ofDecimal (.scaled n 0) = ofInt n := ofDecimal_eq_ofInt hn (Decimal.toRat_ofInt n)
  unfold readBackAt?
  simp only [hr]
  exact List.find?_cons_of_pos (by simpa using hs)

theorem toRat_refine {d : Nat} (hn : 0 < n) (hb : n < twoTo precision) (hd : 0 < d) (t : Nat) {e : Int}
    (he : 0 ≤ e) (ht : e < t) : (refine (ofInt n) (n * d) d e t).toRat = n := by
  induction t generalizing e
  case zero      => omega
  case succ t ih =>
    rw [refine]
    cases h : readBackAt? (ofInt n) (n * d) d e
    case some y => exact toRat_readBackAt? hb he h
    case none   =>
      have he₀ : e ≠ 0 := by
        rintro rfl
        simp [readBackAt?_zero hn hd] at h
      exact ih (by omega) (by omega)

theorem floorLog10_nonneg {d : Nat} (h : d ≤ n) : 0 ≤ floorLog10 n d := by
  have hc : digitCount d ≤ digitCount n :=
    (digitCount_le_iff (digitCount_pos n)).2 (Nat.lt_of_le_of_lt h (lt_tenTo_digitCount n))
  unfold floorLog10
  simp only
  split
  case isTrue     => omega
  case isFalse hn =>
    have hne : (digitCount n : Int) - digitCount d ≠ 0 := by
      intro h₀
      rw [h₀] at hn
      exact hn (Nat.mul_le_mul_right _ h)
    omega

-- The value as a quotient of natural numbers.
theorem toRat_eq_div (h : 0 ≤ x.significand) : x.toRat =
    (x.significand.natAbs * twoTo x.exponent.toNat : Nat) / (twoTo (-x.exponent).toNat : Nat) := by
  have hs : (x.significand.natAbs : Rat) = x.significand := by
    rw [← Int.cast_natCast, Int.natAbs_of_nonneg h]
  have hz := zpow_eq_div Nat.two_pos x.exponent
  rw [Nat.cast_ofNat] at hz
  rw [toRat, hz, Nat.cast_mul, hs, mul_div_assoc]
  rfl

theorem shortest_of_pos (h : 0 < x.significand) {n d : Nat}
    (hn : x.significand.natAbs * twoTo x.exponent.toNat = n) (hd : twoTo (-x.exponent).toNat = d) :
    x.shortest = refine x n d (floorLog10 n d) mostDigits := by
  have hs : ¬x.significand < 0 := Int.not_lt.2 h.le
  simp only [shortest, if_neg h.ne', if_neg hs, hn, hd]

theorem shortest_neg (h : 0 < x.significand) : (-x).shortest = -x.shortest := by
  have hs : (-x).significand < 0 := Int.neg_neg_of_pos h
  have hn : - -x = x := congrArg (mk · x.exponent) (Int.neg_neg x.significand)
  have hm : (-x).significand.natAbs = x.significand.natAbs := Int.natAbs_neg _
  have he : (-x).exponent = x.exponent := rfl
  rw [shortest_of_pos h rfl rfl]
  simp only [shortest, if_neg hs.ne, if_pos hs, hn, hm, he]

theorem toRat_shortest_zero : (ofInt 0).shortest.toRat = 0 := by
  have h : (ofInt 0).shortest = .ofInt 0 := rfl
  rw [h, Decimal.toRat_ofInt, Int.cast_zero]

theorem toRat_shortest_natCast (hb : n < twoTo precision) : (ofInt n).shortest.toRat = n := by
  rcases Nat.eq_zero_or_pos n with rfl | hn
  · exact_mod_cast toRat_shortest_zero
  · have hv : (ofInt n).toRat = n := by exact_mod_cast toRat_ofInt (by simpa using hb)
    have hs : 0 < (ofInt n).significand := significand_pos (by rw [hv]; exact_mod_cast hn)
    have hd := twoTo_pos (-(ofInt n).exponent).toNat
    have hq : (ofInt n).significand.natAbs * twoTo (ofInt n).exponent.toNat =
        n * twoTo (-(ofInt n).exponent).toNat := by
      rw [toRat_eq_div hs.le, div_eq_iff (Nat.cast_pos.2 hd).ne'] at hv
      exact_mod_cast hv
    rw [shortest_of_pos hs hq rfl]
    generalize twoTo (-(ofInt n).exponent).toNat = d at hd
    refine toRat_refine hn hb hd _ (floorLog10_nonneg (Nat.le_mul_of_pos_left d hn)) ?_
    -- seventeen digits are more than the number has
    have hle : (10 : Rat) ^ floorLog10 (n * d) d ≤ n := by
      have hz := zpow_floorLog10_le (Nat.mul_pos hn hd) hd
      rwa [Nat.cast_mul, mul_div_cancel_right₀ _ (Nat.cast_pos.2 hd).ne'] at hz
    have hlt : (n : Rat) < 10 ^ (mostDigits : Int) := by
      have h₁ : n < 10 ^ mostDigits := hb.trans (by decide)
      rw [zpow_natCast]
      exact_mod_cast h₁
    exact (zpow_lt_zpow_iff_right₀ (by decide)).1 (hle.trans_lt hlt)

-- The shortest decimal of an integer is the integer.
theorem toRat_shortest_ofInt (h : k.natAbs < twoTo precision) : (ofInt k).shortest.toRat = k := by
  obtain ⟨n, rfl | rfl⟩ := k.eq_nat_or_neg
  case inl => exact_mod_cast toRat_shortest_natCast (by simpa using h)
  case inr =>
    have hb : n < twoTo precision := by simpa using h
    rcases Nat.eq_zero_or_pos n with rfl | hn
    · simpa using toRat_shortest_zero
    · have hv : (ofInt n).toRat = n := by exact_mod_cast toRat_ofInt (by simpa using hb)
      have hs : 0 < (ofInt n).significand := significand_pos (by rw [hv]; exact_mod_cast hn)
      rw [ofInt_neg hn, shortest_neg hs, Decimal.toRat_neg, toRat_shortest_natCast hb, Int.cast_neg,
        Int.cast_natCast]

end Shortest

end TermReduction.Binary64
