import InstrumentFlow.Numeric.Arithmetic

/-!
# Whole numbers in the 64-bit format

Whole numbers below 2⁵³ need no rounding, so that their order is the order of the numbers they
become.

* `rank_ofRank`, `negative_ofRank` -- a pattern is put together from its sign and its rank;
* `rankOfRatio_whole` -- the rank of a whole number;
* `rankOfRatio_lt` -- greater numbers have greater ranks;
* `lessOrEqual_ofInt` -- **whole numbers compare as their patterns do**.
-/

namespace InstrumentFlow.Numeric

/-! ## 1. Signs and ranks -/

section

variable {f : Format} {rank : Nat}

theorem width_pos (hf : 0 < f.precision) : 0 < f.width := Nat.add_pos_left hf _

/-- The bits of a pattern that is put together from its sign and its rank. -/
theorem toNat_ofRank (hf : 0 < f.precision) (h : rank < twoTo (f.width - 1)) (negative : Bool) :
    (Binary.ofRank (f := f) negative rank).bits.toNat
      = rank + if negative then twoTo (f.width - 1) else 0 := by
  have hwidth : 2 ^ f.width = twoTo (f.width - 1) * 2 := by
    rw [← twoTo_succ, Nat.sub_add_cancel (width_pos hf)]
    rfl
  unfold Binary.ofRank
  rw [BitVec.toNat_ofNat, Nat.mod_eq_of_lt]
  rw [hwidth]
  split <;> omega

theorem rank_ofRank (hf : 0 < f.precision) (h : rank < twoTo (f.width - 1)) (negative : Bool) :
    (Binary.ofRank (f := f) negative rank).rank = rank := by
  unfold Binary.rank
  rw [toNat_ofRank hf h]
  split
  · rw [Nat.add_mod_right, Nat.mod_eq_of_lt h]
  · rw [Nat.add_zero, Nat.mod_eq_of_lt h]

theorem negative_ofRank (hf : 0 < f.precision) (h : rank < twoTo (f.width - 1)) (negative : Bool) :
    (Binary.ofRank (f := f) negative rank).negative = negative := by
  unfold Binary.negative
  rw [BitVec.msb_eq_decide, toNat_ofRank hf h]
  have hrank : rank < 2 ^ (f.width - 1) := h
  have htop : twoTo (f.width - 1) = 2 ^ (f.width - 1) := rfl
  cases negative
  · simp only [Bool.false_eq_true, if_false, decide_eq_false_iff_not]
    omega
  · simp only [if_true, decide_eq_true_eq]
    omega

end

/-! ## 2. Ranks of whole numbers -/

variable {m n : Nat}

/-- Whatever is too large is rounded to infinity. -/
theorem Format.rankOfRatio_le_infinityRank (f : Format) (num den : Nat) :
    f.rankOfRatio num den ≤ f.infinityRank := by
  unfold rankOfRatio
  split
  · exact Nat.zero_le _
  · exact Nat.min_le_right _ _

theorem roundHalfEven_one (n : Nat) : roundHalfEven n 1 = n := by
  simp [roundHalfEven, Nat.mod_one]

/-- The significand of a whole number: its bits, moved up until they fill the precision. -/
theorem significand_bounds (hpos : n ≠ 0) (h : n < twoTo 53) :
    n.log2 ≤ 52 ∧ twoTo 52 ≤ n * twoTo (52 - n.log2)
      ∧ n * twoTo (52 - n.log2) < twoTo 53 := by
  have hlog : n.log2 < 53 := (Nat.log2_lt hpos).mpr h
  refine ⟨Nat.le_of_lt_succ hlog, ?_, ?_⟩
  · calc twoTo 52 = 2 ^ n.log2 * twoTo (52 - n.log2) := by
          show 2 ^ 52 = 2 ^ n.log2 * 2 ^ (52 - n.log2)
          rw [← Nat.pow_add, Nat.add_sub_cancel' (Nat.le_of_lt_succ hlog)]
      _ ≤ n * twoTo (52 - n.log2) := Nat.mul_le_mul_right _ (Nat.log2_self_le hpos)
  · calc n * twoTo (52 - n.log2) < 2 ^ (n.log2 + 1) * twoTo (52 - n.log2) :=
          Nat.mul_lt_mul_of_pos_right Nat.lt_log2_self (twoTo_pos _)
      _ = twoTo 53 := by
          show 2 ^ (n.log2 + 1) * 2 ^ (52 - n.log2) = 2 ^ 53
          rw [← Nat.pow_add]
          congr 1
          omega

theorem scaleRatio_whole (hlog : n.log2 ≤ 52) :
    scaleRatio n 1 ((n.log2 : Int) - 52) = (n * twoTo (52 - n.log2), 1) := by
  have hup : (-((n.log2 : Int) - 52)).toNat = 52 - n.log2 := by omega
  have hdown : ((n.log2 : Int) - 52).toNat = 0 := by omega
  unfold scaleRatio
  rw [hup, hdown, twoTo_zero, Nat.one_mul]

/-- The last place of a whole number is as far below its leading bit as the precision goes. -/
theorem placeOfRatio_whole (hpos : n ≠ 0) (h : n < twoTo 53) :
    Format.double.placeOfRatio n 1 = n.log2 - 52 := by
  obtain ⟨hlog, hlead, _⟩ := significand_bounds hpos h
  have hguess : (n.log2 : Int) - (1 : Nat).log2 - (Format.double.precision - 1) = n.log2 - 52 := by
    have hone : (1 : Nat).log2 = 0 := by decide
    rw [hone]
    simp [Format.double]
  have hexact : ¬ n * twoTo (52 - n.log2) < twoTo (Format.double.precision - 1) * 1 := by
    rw [Nat.mul_one]
    exact Nat.not_lt.mpr hlead
  have hleast : Format.double.leastExponent ≤ (n.log2 : Int) - 52 := by
    have : Format.double.leastExponent = -1074 := by decide
    omega
  unfold Format.placeOfRatio
  rw [hguess]
  dsimp only
  rw [scaleRatio_whole hlog, if_neg hexact, Int.max_eq_left hleast]

/-- **The rank of a whole number**: the place of its leading bit, and then all of its bits. -/
theorem rankOfRatio_whole (hpos : n ≠ 0) (h : n < twoTo 53) :
    Format.double.rankOfRatio n 1 = (n.log2 + 1022) * twoTo 52 + n * twoTo (52 - n.log2) := by
  obtain ⟨hlog, _, hfull⟩ := significand_bounds hpos h
  have hplace : ((n.log2 : Int) - 52 - Format.double.leastExponent).toNat = n.log2 + 1022 := by
    have : Format.double.leastExponent = -1074 := by decide
    omega
  have hinfinity : Format.double.infinityRank = 2047 * twoTo 52 := by decide
  have hdouble : twoTo 53 = 2 * twoTo 52 := by decide
  unfold Format.rankOfRatio
  rw [if_neg hpos, placeOfRatio_whole hpos h]
  dsimp only
  rw [scaleRatio_whole hlog, hplace, roundHalfEven_one]
  refine Nat.min_eq_left ?_
  rw [hinfinity]
  calc (n.log2 + 1022) * twoTo 52 + n * twoTo (52 - n.log2)
      ≤ (52 + 1022) * twoTo 52 + 2 * twoTo 52 :=
        Nat.add_le_add (Nat.mul_le_mul_right _ (by omega)) (by omega)
    _ ≤ 2047 * twoTo 52 := by omega

/-- **Greater whole numbers have greater ranks.** -/
theorem rankOfRatio_lt (hmn : m < n) (h : n < twoTo 53) :
    Format.double.rankOfRatio m 1 < Format.double.rankOfRatio n 1 := by
  have hn : n ≠ 0 := by omega
  obtain ⟨_, hlead, _⟩ := significand_bounds hn h
  rw [rankOfRatio_whole hn h]
  rcases Nat.eq_zero_or_pos m with rfl | hm
  · have hzero : Format.double.rankOfRatio 0 1 = 0 := rfl
    have := twoTo_pos 52
    omega
  have hm : m ≠ 0 := by omega
  obtain ⟨_, _, hfull⟩ := significand_bounds hm (Nat.lt_trans hmn h)
  rw [rankOfRatio_whole hm (Nat.lt_trans hmn h)]
  have hlog : m.log2 ≤ n.log2 := by
    rw [Nat.le_log2 hn]
    exact Nat.le_trans (Nat.log2_self_le hm) (Nat.le_of_lt hmn)
  rcases Nat.eq_or_lt_of_le hlog with heq | hlt
  · rw [heq]
    exact Nat.add_lt_add_left (Nat.mul_lt_mul_of_pos_right hmn (twoTo_pos _)) _
  · have hdouble : twoTo 53 = 2 * twoTo 52 := by decide
    calc (m.log2 + 1022) * twoTo 52 + m * twoTo (52 - m.log2)
        < (m.log2 + 1022) * twoTo 52 + 2 * twoTo 52 := by omega
      _ = (m.log2 + 1022 + 1) * twoTo 52 + twoTo 52 := by
        rw [Nat.succ_mul (m.log2 + 1022)]
        omega
      _ ≤ (n.log2 + 1022) * twoTo 52 + n * twoTo (52 - n.log2) :=
        Nat.add_le_add (Nat.mul_le_mul_right _ (by omega)) hlead

/-! ## 3. The order -/

/-- **The place of a whole number** among all numbers. -/
theorem key_ofInt (i : Int) : (Binary.ofInt i : Binary64).key
    = some (if i < 0 then -(Format.double.rankOfRatio i.natAbs 1 : Int)
      else Format.double.rankOfRatio i.natAbs 1) := by
  have hprecision : 0 < Format.double.precision := by decide
  have hmost := Format.double.rankOfRatio_le_infinityRank i.natAbs 1
  have htop : Format.double.rankOfRatio i.natAbs 1 < twoTo (Format.double.width - 1) :=
    Nat.lt_of_le_of_lt hmost (by decide)
  unfold Binary.key Binary.isNaN Binary.ofInt Binary.ofRatio
  rw [rank_ofRank hprecision htop, negative_ofRank hprecision htop]
  simp [hmost]

/-- **Whole numbers compare as the numbers do that they become.** -/
theorem lessOrEqual_ofInt {a b : Int} (ha : a.natAbs < twoTo 53) (hb : b.natAbs < twoTo 53) :
    (Binary.ofInt a : Binary64).lessOrEqual (Binary.ofInt b) = decide (a ≤ b) := by
  have hless (m n : Nat) (hn : n < twoTo 53) (hm : m < twoTo 53) :
      Format.double.rankOfRatio m 1 ≤ Format.double.rankOfRatio n 1 ↔ m ≤ n := by
    refine ⟨fun hle => ?_, fun hle => ?_⟩
    · refine Nat.le_of_not_lt fun hlt => ?_
      exact absurd (rankOfRatio_lt hlt hm) (Nat.not_lt.mpr hle)
    · rcases Nat.eq_or_lt_of_le hle with rfl | hlt
      · exact Nat.le_refl _
      · exact Nat.le_of_lt (rankOfRatio_lt hlt hn)
  have hforth := hless a.natAbs b.natAbs hb ha
  have hback := hless b.natAbs a.natAbs ha hb
  have hzero := hless a.natAbs 0 (twoTo_pos 53) ha
  have hnone : Format.double.rankOfRatio 0 1 = 0 := rfl
  unfold Binary.lessOrEqual Binary.compareKeys
  rw [key_ofInt, key_ofInt]
  refine decide_eq_decide.mpr ?_
  split <;> split <;> omega

end InstrumentFlow.Numeric
