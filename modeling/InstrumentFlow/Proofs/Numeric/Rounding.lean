import InstrumentFlow.Proofs.Numeric.Shortest
import InstrumentFlow.Proofs.Numeric.Wholes
import Mathlib.Algebra.Order.Field.Power
import Mathlib.Algebra.Order.Field.Rat
import Mathlib.Tactic.FieldSimp
import Mathlib.Tactic.Linarith
import Mathlib.Tactic.Ring

/-!
# Rounding

The one rounding of the library keeps the order of ratios, and what is a number of the format
already it leaves alone.

* `roundHalfEven_mono` -- rounding to a whole number keeps the order;
* `Format.IsPlace` -- the last place that a ratio is rounded to, and `isPlace_placeOfRatio`, that
  this place is found;
* `rankOfRatio_mono` -- **rounding keeps the order**;
* `rankOfRatio_of_exact` -- **rounding leaves numbers of the format alone**;
* `Format.valueOfRank` -- the number with a given rank, and `valueOfRank_le_iff`, that greater ranks
  are greater numbers;
* `rankOfRatio_le`, `le_rankOfRatio` -- rounding passes by no number of the format.
-/

namespace InstrumentFlow.Numeric

/-! ## 1. Whole numbers -/

section

variable {num den num' den' : Nat}

theorem ratio_le_iff (hd : 0 < den) (hd' : 0 < den') :
    (num / den : ℚ) ≤ num' / den' ↔ num * den' ≤ num' * den := by
  rw [div_le_div_iff₀ (by exact_mod_cast hd) (by exact_mod_cast hd')]
  exact_mod_cast Iff.rfl

/-- **Rounding to a whole number keeps the order.** -/
theorem roundHalfEven_mono (hd : 0 < den) (hd' : 0 < den')
    (h : (num / den : ℚ) ≤ num' / den') : roundHalfEven num den ≤ roundHalfEven num' den' := by
  have hcross : num * den' ≤ num' * den := (ratio_le_iff hd hd').mp h
  have hnum : den * (num / den) + num % den = num := Nat.div_add_mod num den
  have hnum' : den' * (num' / den') + num' % den' = num' := Nat.div_add_mod num' den'
  have hquotient : num / den ≤ num' / den' := by
    rw [Nat.le_div_iff_mul_le hd']
    refine Nat.le_of_mul_le_mul_right ?_ hd
    calc num / den * den' * den = num / den * den * den' := by ring
      _ ≤ num * den' := Nat.mul_le_mul_right _ (Nat.div_mul_le_self num den)
      _ ≤ num' * den := hcross
  rcases Nat.lt_or_eq_of_le hquotient with hlt | heq
  · -- the smaller one goes up by one at most, and the greater one never goes down
    have hup : roundHalfEven num den ≤ num / den + 1 := by
      unfold roundHalfEven
      dsimp only
      split
      · omega
      · split <;> omega
    have hdown : num' / den' ≤ roundHalfEven num' den' := by
      unfold roundHalfEven
      dsimp only
      split
      · omega
      · split <;> omega
    omega
  · -- with one quotient the rests decide, in units of their divisors
    have hrests : num % den * den' ≤ num' % den' * den := by
      rw [← hnum, ← hnum', ← heq] at hcross
      nlinarith
    have hhalf : den ≤ 2 * (num % den) → den' ≤ 2 * (num' % den') := fun hle => by
      refine Nat.le_of_mul_le_mul_right ?_ hd
      nlinarith
    have hmore : den < 2 * (num % den) → den' < 2 * (num' % den') := fun hlt => by
      refine Nat.lt_of_mul_lt_mul_right (a := den) ?_
      nlinarith
    unfold roundHalfEven
    rw [← heq]
    dsimp only
    split
    · split
      · omega
      · split <;> omega
    · split
      · rw [if_neg (by omega), if_pos (by omega)]
      · rw [if_neg (by omega)]
        split <;> omega

theorem roundHalfEven_le {n : Nat} (hd : 0 < den) (h : (num / den : ℚ) ≤ n) :
    roundHalfEven num den ≤ n := by
  have hle : (num / den : ℚ) ≤ n / (1 : Nat) := by simpa using h
  have hmono := roundHalfEven_mono hd Nat.one_pos hle
  rwa [roundHalfEven_one] at hmono

theorem le_roundHalfEven {n : Nat} (hd : 0 < den) (h : (n : ℚ) ≤ num / den) :
    n ≤ roundHalfEven num den := by
  have hle : (n / (1 : Nat) : ℚ) ≤ num / den := by simpa using h
  have hmono := roundHalfEven_mono Nat.one_pos hd hle
  rwa [roundHalfEven_one] at hmono

theorem roundHalfEven_of_eq {n : Nat} (hd : 0 < den) (h : (num / den : ℚ) = n) :
    roundHalfEven num den = n :=
  Nat.le_antisymm (roundHalfEven_le hd h.le) (le_roundHalfEven hd h.ge)

/-! ## 2. Powers of two -/

theorem twoTo_cast (n : Nat) : ((twoTo n : Nat) : ℚ) = 2 ^ (n : Int) := by
  rw [zpow_natCast]
  exact_mod_cast rfl

theorem two_zpow_le {m n : Int} (h : m ≤ n) : (2 : ℚ) ^ m ≤ 2 ^ n :=
  zpow_le_zpow_right₀ (by norm_num) h

theorem twoTo_pred {n : Nat} (hn : 0 < n) : twoTo n = 2 * twoTo (n - 1) := by
  rw [← Nat.sub_add_cancel hn, twoTo_succ, Nat.add_sub_cancel, Nat.mul_comm]

/-- A power with an exponent of either sign, as a ratio. -/
theorem twoTo_div (e : Int) : ((twoTo e.toNat : Nat) : ℚ) / (twoTo (-e).toNat : Nat) = 2 ^ e := by
  rw [twoTo_cast, twoTo_cast, ← zpow_sub₀ (by norm_num)]
  congr 1
  omega

/-- A ratio in units of a power of two. -/
theorem scaleRatio_div (num den : Nat) (e : Int) :
    (((scaleRatio num den e).1 : ℚ) / (scaleRatio num den e).2) = num / den * 2 ^ (-e) := by
  have hpower := twoTo_div (-e)
  rw [Int.neg_neg] at hpower
  unfold scaleRatio
  rw [← hpower]
  push_cast
  rw [div_mul_div_comm]

theorem scaleRatio_pos (hd : 0 < den) (e : Int) : 0 < (scaleRatio num den e).2 :=
  Nat.mul_pos hd (twoTo_pos _)

end

/-! ## 3. The last place -/

namespace Format

variable {f : Format} {num den num' den' : Nat}

/-- **The last place that a ratio is rounded to**: it leaves as many bits before the point as the
    precision says, and fewer only in the least place there is. -/
structure IsPlace (f : Format) (q : ℚ) (e : Int) : Prop where
  least : f.leastExponent ≤ e
  below : q < 2 ^ (e + f.precision)
  above : e = f.leastExponent ∨ 2 ^ (e + f.precision - 1) ≤ q

theorem IsPlace.mono {q q' : ℚ} {e e' : Int} (h : f.IsPlace q e) (h' : f.IsPlace q' e')
    (hq : q ≤ q') : e ≤ e' := by
  by_contra hlt
  rcases h.above with hleast | habove
  · have := h'.least
    omega
  · have hle : (2 : ℚ) ^ (e' + f.precision) ≤ 2 ^ (e + f.precision - 1) := two_zpow_le (by omega)
    exact absurd h'.below (not_lt.mpr ((hle.trans habove).trans hq))

theorem IsPlace.unique {q : ℚ} {e e' : Int} (h : f.IsPlace q e) (h' : f.IsPlace q e') : e = e' :=
  Int.le_antisymm (h.mono h' le_rfl) (h'.mono h le_rfl)

/-- A number lies between the powers of two that its leading bit names. -/
theorem log2_bounds {n : Nat} (hn : 0 < n) :
    (2 : ℚ) ^ (n.log2 : Int) ≤ n ∧ (n : ℚ) < 2 ^ ((n.log2 : Int) + 1) := by
  constructor
  · rw [zpow_natCast]
    exact_mod_cast Nat.log2_self_le hn.ne'
  · have hlt : n < 2 ^ (n.log2 + 1) := Nat.lt_log2_self
    rw [← Nat.cast_succ, zpow_natCast]
    exact_mod_cast hlt

/-- **The place is found.** -/
theorem isPlace_placeOfRatio (hp : 0 < f.precision) (hn : 0 < num) (hd : 0 < den) :
    f.IsPlace (num / den) (f.placeOfRatio num den) := by
  have hdpos : (0 : ℚ) < den := by exact_mod_cast hd
  obtain ⟨hnlow, hnhigh⟩ := log2_bounds hn
  obtain ⟨hdlow, hdhigh⟩ := log2_bounds hd
  -- the leading bits of both numbers leave two places to choose from
  have hlow : (2 : ℚ) ^ ((num.log2 : Int) - den.log2 - 1) ≤ num / den := by
    rw [le_div_iff₀ hdpos]
    calc (2 : ℚ) ^ ((num.log2 : Int) - den.log2 - 1) * den
        ≤ 2 ^ ((num.log2 : Int) - den.log2 - 1) * 2 ^ ((den.log2 : Int) + 1) :=
          mul_le_mul_of_nonneg_left hdhigh.le (by positivity)
      _ = 2 ^ (num.log2 : Int) := by
          rw [← zpow_add₀ (by norm_num)]
          congr 1
          omega
      _ ≤ num := hnlow
  have hhigh : (num / den : ℚ) < 2 ^ ((num.log2 : Int) - den.log2 + 1) := by
    rw [div_lt_iff₀ hdpos]
    calc (num : ℚ) < 2 ^ ((num.log2 : Int) + 1) := hnhigh
      _ = 2 ^ ((num.log2 : Int) - den.log2 + 1) * 2 ^ (den.log2 : Int) := by
          rw [← zpow_add₀ (by norm_num)]
          congr 1
          omega
      _ ≤ 2 ^ ((num.log2 : Int) - den.log2 + 1) * den :=
          mul_le_mul_of_nonneg_left hdlow (by positivity)
  have hpred : ((f.precision - 1 : Nat) : Int) = f.precision - 1 := by omega
  have hchoice (e : Int) :
      (scaleRatio num den e).1 < twoTo (f.precision - 1) * (scaleRatio num den e).2
        ↔ (num / den : ℚ) < 2 ^ (e + f.precision - 1) := by
    have hpos : (0 : ℚ) < (scaleRatio num den e).2 := by exact_mod_cast scaleRatio_pos hd e
    rw [← Nat.cast_lt (α := ℚ), Nat.cast_mul, ← div_lt_iff₀ hpos, scaleRatio_div, twoTo_cast,
      zpow_neg, ← div_eq_mul_inv, div_lt_iff₀ (by positivity), ← zpow_add₀ (by norm_num), hpred]
    rw [show (f.precision : Int) - 1 + e = e + f.precision - 1 by omega]
  unfold placeOfRatio
  dsimp only
  generalize hguess : (num.log2 : Int) - den.log2 - (f.precision - 1) = guess
  have hexact : ∃ e, (if (scaleRatio num den guess).1
        < twoTo (f.precision - 1) * (scaleRatio num den guess).2 then guess - 1 else guess) = e
      ∧ (num / den : ℚ) < 2 ^ (e + f.precision) ∧ 2 ^ (e + f.precision - 1) ≤ (num / den : ℚ) := by
    split
    · next hless =>
      refine ⟨guess - 1, rfl, ?_, ?_⟩
      · rw [show guess - 1 + f.precision = guess + f.precision - 1 by omega]
        exact (hchoice guess).mp hless
      · rw [show guess - 1 + f.precision - 1 = (num.log2 : Int) - den.log2 - 1 by omega]
        exact hlow
    · next hless =>
      refine ⟨guess, rfl, ?_, ?_⟩
      · rw [show guess + f.precision = (num.log2 : Int) - den.log2 + 1 by omega]
        exact hhigh
      · exact not_lt.mp fun hlt => hless ((hchoice guess).mpr hlt)
  obtain ⟨e, he, hbelow, habove⟩ := hexact
  rw [he]
  refine ⟨Int.le_max_right _ _, hbelow.trans_le (two_zpow_le (by omega)), ?_⟩
  rcases Int.le_total e f.leastExponent with hle | hle
  · exact Or.inl (Int.max_eq_right hle)
  · rw [Int.max_eq_left hle]
    exact Or.inr habove

/-! ## 4. Ranks -/

/-- The rank of a ratio, counted in the units of its last place. -/
theorem rankOfRatio_of_isPlace (hp : 0 < f.precision) (hn : 0 < num) (hd : 0 < den) {e : Int}
    (he : f.IsPlace (num / den) e) :
    f.rankOfRatio num den = min ((e - f.leastExponent).toNat * twoTo (f.precision - 1)
      + roundHalfEven (scaleRatio num den e).1 (scaleRatio num den e).2) f.infinityRank := by
  unfold rankOfRatio
  rw [if_neg hn.ne', (isPlace_placeOfRatio hp hn hd).unique he]

/-- A ratio has at most as many bits before its last place as the precision says. -/
theorem IsPlace.rounded_le (hp : 0 < f.precision) (hd : 0 < den) {e : Int}
    (he : f.IsPlace (num / den) e) :
    roundHalfEven (scaleRatio num den e).1 (scaleRatio num den e).2
      ≤ 2 * twoTo (f.precision - 1) := by
  refine roundHalfEven_le (scaleRatio_pos hd e) ?_
  rw [← twoTo_pred hp, scaleRatio_div, twoTo_cast, zpow_neg, ← div_eq_mul_inv,
    div_le_iff₀ (by positivity), ← zpow_add₀ (by norm_num), Int.add_comm]
  exact he.below.le

/-- Above the least place it has as many. -/
theorem IsPlace.le_rounded (hp : 0 < f.precision) (hd : 0 < den) {e : Int}
    (he : f.IsPlace (num / den) e) (habove : f.leastExponent < e) :
    twoTo (f.precision - 1) ≤ roundHalfEven (scaleRatio num den e).1 (scaleRatio num den e).2 := by
  refine le_roundHalfEven (scaleRatio_pos hd e) ?_
  have hpred : ((f.precision - 1 : Nat) : Int) = f.precision - 1 := by omega
  rw [scaleRatio_div, twoTo_cast, hpred, zpow_neg, ← div_eq_mul_inv, le_div_iff₀ (by positivity),
    ← zpow_add₀ (by norm_num), show (f.precision : Int) - 1 + e = e + f.precision - 1 by omega]
  exact he.above.resolve_left habove.ne'

/-- **Rounding keeps the order.** -/
theorem rankOfRatio_mono (hp : 0 < f.precision) (hd : 0 < den) (hd' : 0 < den')
    (h : (num / den : ℚ) ≤ num' / den') : f.rankOfRatio num den ≤ f.rankOfRatio num' den' := by
  rcases Nat.eq_zero_or_pos num with rfl | hn
  · exact Nat.zero_le _
  have hn' : 0 < num' := by
    have hcross : num * den' ≤ num' * den := (ratio_le_iff hd hd').mp h
    exact Nat.pos_of_mul_pos_right (Nat.lt_of_lt_of_le (Nat.mul_pos hn hd') hcross)
  have he := isPlace_placeOfRatio hp hn hd
  have he' := isPlace_placeOfRatio hp hn' hd'
  rw [rankOfRatio_of_isPlace hp hn hd he, rankOfRatio_of_isPlace hp hn' hd' he']
  refine min_le_min_right _ ?_
  generalize f.placeOfRatio num den = e at he
  generalize f.placeOfRatio num' den' = e' at he'
  rcases Int.lt_or_eq_of_le (he.mono he' h) with hlt | rfl
  · -- a greater place begins where the smaller one is full
    have hfull := he.rounded_le hp hd
    have hfilled := he'.le_rounded hp hd' (by have := he.least; omega)
    have hunits : (e - f.leastExponent).toNat + 1 ≤ (e' - f.leastExponent).toNat := by
      have := he.least
      omega
    have hproduct := Nat.mul_le_mul_right (twoTo (f.precision - 1)) hunits
    rw [Nat.succ_mul] at hproduct
    omega
  · refine Nat.add_le_add_left (roundHalfEven_mono (scaleRatio_pos hd e) (scaleRatio_pos hd' e) ?_) _
    rw [scaleRatio_div, scaleRatio_div]
    exact mul_le_mul_of_nonneg_right h (by positivity)

/-- **Rounding leaves numbers of the format alone**: those of as many bits as the precision says, or
    of fewer in the least place. -/
theorem rankOfRatio_of_exact (hp : 0 < f.precision) (hd : 0 < den) {m : Nat} {e : Int}
    (hm : m < 2 * twoTo (f.precision - 1)) (he : f.leastExponent ≤ e)
    (hfull : e = f.leastExponent ∨ twoTo (f.precision - 1) ≤ m)
    (hq : (num / den : ℚ) = m * 2 ^ e) :
    f.rankOfRatio num den
      = min ((e - f.leastExponent).toNat * twoTo (f.precision - 1) + m) f.infinityRank := by
  have hdpos : (0 : ℚ) < den := by exact_mod_cast hd
  rcases Nat.eq_zero_or_pos num with rfl | hn
  · have hm : m = 0 := by
      rw [Nat.cast_zero, zero_div, eq_comm, mul_eq_zero] at hq
      exact_mod_cast hq.resolve_right (by positivity)
    subst hm
    have hleast : e = f.leastExponent :=
      hfull.resolve_right (Nat.not_le.mpr (twoTo_pos _))
    rw [hleast, Int.sub_self]
    simp [rankOfRatio]
  · have hplace : f.IsPlace (num / den) e := by
      refine ⟨he, ?_, hfull.imp_right fun hle => ?_⟩
      · rw [hq, Int.add_comm, zpow_add₀ (by norm_num), ← twoTo_cast, twoTo_pred hp]
        exact mul_lt_mul_of_pos_right (by exact_mod_cast hm) (by positivity)
      · have hpred : ((f.precision - 1 : Nat) : Int) = f.precision - 1 := by omega
        rw [hq, show e + f.precision - 1 = (f.precision - 1 : Nat) + e by omega,
          zpow_add₀ (by norm_num), ← twoTo_cast]
        exact mul_le_mul_of_nonneg_right (by exact_mod_cast hle) (by positivity)
    rw [rankOfRatio_of_isPlace hp hn hd hplace, roundHalfEven_of_eq (scaleRatio_pos hd e)]
    rw [scaleRatio_div, hq, mul_assoc, ← zpow_add₀ (by norm_num), Int.add_right_neg, zpow_zero,
      mul_one]

/-! ## 5. Numbers -/

/-- **The number with a given rank**, for finite ranks. -/
def valueOfRank (f : Format) (rank : Nat) : ℚ :=
  f.significandOfRank rank * 2 ^ f.exponentOfRank rank

/-- The parts of a rank: how many units below it are full, and its significand. -/
theorem rank_eq_parts (f : Format) (rank : Nat) :
    rank = (f.exponentOfRank rank - f.leastExponent).toNat * twoTo (f.precision - 1)
      + f.significandOfRank rank := by
  unfold exponentOfRank significandOfRank
  rw [add_sub_cancel_left, Int.toNat_natCast]
  split
  · next hlt =>
    rw [Nat.div_eq_of_lt hlt]
    omega
  · next hle =>
    have hpos : 0 < rank / twoTo (f.precision - 1) :=
      Nat.div_pos (Nat.not_lt.mp hle) (twoTo_pos _)
    have hsplit := Nat.div_add_mod' rank (twoTo (f.precision - 1))
    have hunits : rank / twoTo (f.precision - 1) * twoTo (f.precision - 1)
        = (rank / twoTo (f.precision - 1) - 1) * twoTo (f.precision - 1)
          + twoTo (f.precision - 1) := by
      rw [← Nat.succ_mul, Nat.succ_eq_add_one, Nat.sub_add_cancel hpos]
    omega

theorem leastExponent_le (f : Format) (rank : Nat) : f.leastExponent ≤ f.exponentOfRank rank := by
  unfold exponentOfRank
  omega

/-- Above the least place the significand of a rank is full. -/
theorem significandOfRank_full (f : Format) (rank : Nat) :
    f.exponentOfRank rank = f.leastExponent
      ∨ twoTo (f.precision - 1) ≤ f.significandOfRank rank := by
  unfold exponentOfRank significandOfRank
  split
  · next hlt =>
    rw [Nat.div_eq_of_lt hlt]
    exact Or.inl (Int.add_zero _)
  · exact Or.inr (Nat.le_add_right _ _)

/-- A number is put together from the parts of its rank. -/
theorem valueOfRank_parts {m : Nat} {e : Int} (hm : m < 2 * twoTo (f.precision - 1))
    (he : f.leastExponent ≤ e) (hfull : e = f.leastExponent ∨ twoTo (f.precision - 1) ≤ m) :
    f.valueOfRank ((e - f.leastExponent).toNat * twoTo (f.precision - 1) + m) = m * 2 ^ e := by
  rcases Nat.lt_or_ge m (twoTo (f.precision - 1)) with hlt | hle
  · have hleast : e = f.leastExponent := hfull.resolve_right (Nat.not_le.mpr hlt)
    unfold valueOfRank exponentOfRank significandOfRank
    rw [hleast, Int.sub_self, Int.toNat_zero, Nat.zero_mul, Nat.zero_add, if_pos hlt,
      Nat.div_eq_of_lt hlt]
    simp
  · obtain ⟨k, rfl⟩ : ∃ k : Nat, e = f.leastExponent + k := ⟨(e - f.leastExponent).toNat, by omega⟩
    obtain ⟨n, rfl⟩ := Nat.exists_eq_add_of_le hle
    have hn : n < twoTo (f.precision - 1) := by omega
    have hrank : (f.leastExponent + k - f.leastExponent).toNat * twoTo (f.precision - 1)
        + (twoTo (f.precision - 1) + n) = n + (k + 1) * twoTo (f.precision - 1) := by
      rw [add_sub_cancel_left, Int.toNat_natCast, Nat.succ_mul]
      omega
    have hover : ¬ n + (k + 1) * twoTo (f.precision - 1) < twoTo (f.precision - 1) := by
      rw [Nat.succ_mul]
      omega
    unfold valueOfRank exponentOfRank significandOfRank
    rw [hrank, if_neg hover, Nat.add_mul_mod_self_right, Nat.mod_eq_of_lt hn,
      Nat.add_mul_div_right _ _ (twoTo_pos _), Nat.div_eq_of_lt hn, Nat.zero_add,
      Nat.add_sub_cancel]

section

variable {rank rank' : Nat}

/-- **The number with a rank is rounded to that rank.** -/
theorem rankOfRatio_valueOfRank (hp : 0 < f.precision) (hd : 0 < den)
    (hrank : rank ≤ f.infinityRank) (hq : (num / den : ℚ) = f.valueOfRank rank) :
    f.rankOfRatio num den = rank := by
  rw [rankOfRatio_of_exact hp hd (significandOfRank_lt f rank) (leastExponent_le f rank)
    (significandOfRank_full f rank) hq, ← rank_eq_parts, Nat.min_eq_left hrank]

/-- A dyadic number as a ratio. -/
theorem dyadic_div (m : Nat) (e : Int) :
    ((m * twoTo e.toNat : Nat) : ℚ) / (twoTo (-e).toNat : Nat) = m * 2 ^ e := by
  rw [Nat.cast_mul, mul_div_assoc, twoTo_div]

/-- A ratio below a number of the format is rounded to it or to a smaller one. -/
theorem rankOfRatio_le (hp : 0 < f.precision) (hd : 0 < den) (hrank : rank ≤ f.infinityRank)
    (hq : (num / den : ℚ) ≤ f.valueOfRank rank) : f.rankOfRatio num den ≤ rank := by
  have hvalue := dyadic_div (f.significandOfRank rank) (f.exponentOfRank rank)
  calc f.rankOfRatio num den
      ≤ f.rankOfRatio _ _ := rankOfRatio_mono hp hd (twoTo_pos _) (hq.trans_eq hvalue.symm)
    _ = rank := rankOfRatio_valueOfRank hp (twoTo_pos _) hrank hvalue

/-- A ratio above it is rounded to it or to a greater one. -/
theorem le_rankOfRatio (hp : 0 < f.precision) (hd : 0 < den) (hrank : rank ≤ f.infinityRank)
    (hq : f.valueOfRank rank ≤ (num / den : ℚ)) : rank ≤ f.rankOfRatio num den := by
  have hvalue := dyadic_div (f.significandOfRank rank) (f.exponentOfRank rank)
  calc rank = f.rankOfRatio _ _ := (rankOfRatio_valueOfRank hp (twoTo_pos _) hrank hvalue).symm
    _ ≤ f.rankOfRatio num den := rankOfRatio_mono hp (twoTo_pos _) hd (hvalue.trans_le hq)

/-- **Greater ranks are greater numbers.** -/
theorem valueOfRank_le_iff (hp : 0 < f.precision) (hrank : rank ≤ f.infinityRank)
    (hrank' : rank' ≤ f.infinityRank) :
    f.valueOfRank rank ≤ f.valueOfRank rank' ↔ rank ≤ rank' := by
  have hreflects {r s : Nat} (hr : r ≤ f.infinityRank) (hs : s ≤ f.infinityRank)
      (h : f.valueOfRank r ≤ f.valueOfRank s) : r ≤ s := by
    have hvalue := dyadic_div (f.significandOfRank r) (f.exponentOfRank r)
    rw [← rankOfRatio_valueOfRank hp (twoTo_pos _) hr hvalue]
    exact rankOfRatio_le hp (twoTo_pos _) hs (hvalue.trans_le h)
  refine ⟨hreflects hrank hrank', fun h => ?_⟩
  by_contra hlt
  have heq : rank = rank' := Nat.le_antisymm h (hreflects hrank' hrank (not_le.mp hlt).le)
  exact hlt (heq ▸ le_rfl)

theorem valueOfRank_nonneg (f : Format) (rank : Nat) : 0 ≤ f.valueOfRank rank := by
  unfold valueOfRank
  positivity

end

end Format

end InstrumentFlow.Numeric
