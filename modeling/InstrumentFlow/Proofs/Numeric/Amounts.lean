import InstrumentFlow.Proofs.Numeric.Rounding

/-!
# Amounts

A pattern amounts to a number, or to an infinity, whatever its format. Two patterns are equal as
numbers exactly if they amount to the same, so equality does not depend on the format in which they
are compared: numbers of 32 bits are numbers of 64 bits too, and so are integers of 32 bits.

* `Amount`, `Binary.amount?` -- what a pattern amounts to;
* `Binary.equals_iff` -- **equality of numbers is equality of amounts**;
* `amount?_ofRatio` -- a ratio with few enough bits becomes a number of 64 bits as it is;
* `amount?_widened`, `amount?_ofInt` -- and so do numbers of 32 bits, and integers.
-/

namespace InstrumentFlow.Numeric

/-! ## 1. Amounts -/

/-- **What a pattern amounts to.** The two zeros amount to the same. -/
inductive Amount where
  | finite (q : ℚ)
  | infinite (negative : Bool)
  deriving DecidableEq

/-- A magnitude with its sign. -/
def signed (negative : Bool) (q : ℚ) : ℚ := if negative then -q else q

theorem signed_inj {s t : Bool} {p q : ℚ} (hp : 0 ≤ p) (hq : 0 ≤ q) :
    signed s p = signed t q ↔ p = q ∧ (p = 0 ∨ s = t) := by
  unfold signed
  constructor
  · intro h
    cases s <;> cases t <;> simp only [if_true, Bool.false_eq_true, if_false] at h
    · exact ⟨h, Or.inr rfl⟩
    · exact ⟨by linarith, Or.inl (by linarith)⟩
    · exact ⟨by linarith, Or.inl (by linarith)⟩
    · exact ⟨by linarith, Or.inr rfl⟩
  · rintro ⟨rfl, rfl | rfl⟩
    · simp
    · rfl

namespace Format

variable {f : Format} {rank rank' : Nat}

theorem valueOfRank_inj (hp : 0 < f.precision) (hrank : rank ≤ f.infinityRank)
    (hrank' : rank' ≤ f.infinityRank) :
    f.valueOfRank rank = f.valueOfRank rank' ↔ rank = rank' := by
  rw [le_antisymm_iff, valueOfRank_le_iff hp hrank hrank', valueOfRank_le_iff hp hrank' hrank,
    le_antisymm_iff]

theorem valueOfRank_zero (f : Format) : f.valueOfRank 0 = 0 := by
  unfold valueOfRank significandOfRank
  rw [if_pos (twoTo_pos _), Nat.cast_zero, zero_mul]

theorem valueOfRank_eq_zero_iff (hp : 0 < f.precision) (hrank : rank ≤ f.infinityRank) :
    f.valueOfRank rank = 0 ↔ rank = 0 := by
  rw [← valueOfRank_zero f, valueOfRank_inj hp hrank (Nat.zero_le _)]

end Format

namespace Binary

variable {f : Format} {x y : Binary f}

/-- What the pattern amounts to; nothing if it stands for no number. -/
def amount? (x : Binary f) : Option Amount :=
  match x.read with
  | .nan => none
  | .infinite negative => some (.infinite negative)
  | .finite negative significand exponent =>
    some (.finite (signed negative (significand * 2 ^ exponent)))

theorem amount?_of_lt (hx : x.rank < f.infinityRank) :
    x.amount? = some (.finite (signed x.negative (f.valueOfRank x.rank))) := by
  unfold amount? read
  rw [if_pos hx]
  rfl

theorem amount?_of_eq (hx : x.rank = f.infinityRank) :
    x.amount? = some (.infinite x.negative) := by
  unfold amount? read
  rw [if_neg (by omega), if_pos hx]

theorem amount?_of_gt (hx : f.infinityRank < x.rank) : x.amount? = none := by
  unfold amount? read
  rw [if_neg (by omega), if_neg (by omega)]

theorem amount?_eq_none_iff : x.amount? = none ↔ x.isNaN = true := by
  have hnan : x.isNaN = true ↔ f.infinityRank < x.rank := by simp [isNaN]
  rw [hnan]
  rcases lt_trichotomy x.rank f.infinityRank with hlt | heq | hgt
  · simp [amount?_of_lt hlt, hlt.le]
  · simp [amount?_of_eq heq, heq]
  · simp [amount?_of_gt hgt, hgt]

/-! ## 2. Equality -/

/-- Numbers are equal if their ranks and their signs are; zero has no sign. -/
theorem equals_iff_rank : x.equals y = true ↔
    x.rank ≤ f.infinityRank ∧ x.rank = y.rank ∧ (x.rank = 0 ∨ x.negative = y.negative) := by
  unfold equals compareKeys key isNaN
  by_cases hx : f.infinityRank < x.rank
  · simp [hx]
  · by_cases hy : f.infinityRank < y.rank
    · simp only [hx, hy, decide_true, if_true, decide_false, Bool.false_eq_true, if_false, false_iff]
      omega
    · simp only [hx, hy, decide_false, Bool.false_eq_true, if_false, beq_iff_eq]
      cases x.negative <;> cases y.negative <;> simp <;> omega

/-- **Equality of numbers is equality of amounts.** -/
theorem equals_iff (hp : 0 < f.precision) (hinfinity : 0 < f.infinityRank) :
    x.equals y = true ↔ ∃ a, x.amount? = some a ∧ y.amount? = some a := by
  rw [equals_iff_rank]
  rcases lt_trichotomy x.rank f.infinityRank with hx | hx | hx
  · rw [amount?_of_lt hx]
    rcases lt_trichotomy y.rank f.infinityRank with hy | hy | hy
    · rw [amount?_of_lt hy]
      have hsame := signed_inj (s := x.negative) (t := y.negative)
        (Format.valueOfRank_nonneg f x.rank) (Format.valueOfRank_nonneg f y.rank)
      rw [Format.valueOfRank_inj hp hx.le hy.le, Format.valueOfRank_eq_zero_iff hp hx.le] at hsame
      rw [and_iff_right hx.le, ← hsame]
      simp [eq_comm]
    · simp only [amount?_of_eq hy]
      simp
      omega
    · simp only [amount?_of_gt hy]
      simp
      omega
  · rw [amount?_of_eq hx]
    rcases lt_trichotomy y.rank f.infinityRank with hy | hy | hy
    · simp only [amount?_of_lt hy]
      simp
      omega
    · simp only [amount?_of_eq hy, hx, hy]
      simp [hinfinity.ne', eq_comm]
    · simp only [amount?_of_gt hy]
      simp
      omega
  · simp [amount?_of_gt hx, hx]

/-- Equality of numbers of 64 bits. -/
theorem equals_iff_double {x y : Binary64} :
    x.equals y = true ↔ ∃ a, x.amount? = some a ∧ y.amount? = some a :=
  equals_iff (by decide) (by decide)

/-- Equality of numbers of 32 bits. -/
theorem equals_iff_single {x y : Binary32} :
    x.equals y = true ↔ ∃ a, x.amount? = some a ∧ y.amount? = some a :=
  equals_iff (by decide) (by decide)

/-! ## 3. Numbers of 64 bits -/

/-- The width of 64 bits holds every rank up to infinity. -/
theorem rank_lt_of_le {rank : Nat} (h : rank ≤ Format.double.infinityRank) :
    rank < twoTo (Format.double.width - 1) := Nat.lt_of_le_of_lt h (by decide)

/-- A number of 53 bits, in a place that is neither very small nor very great, is one of 64 bits:
    its leading bit is moved to where the precision begins. -/
theorem exists_rank {m : Nat} {e : Int} (hm : m < twoTo 53) (hlow : -1022 ≤ e) (hhigh : e ≤ 900) :
    ∃ rank, rank < Format.double.infinityRank ∧ Format.double.valueOfRank rank = m * 2 ^ e := by
  have hleast : Format.double.leastExponent = -1074 := by decide
  have hinfinity : Format.double.infinityRank = 2047 * twoTo 52 := by decide
  have hhalf : twoTo (Format.double.precision - 1) = twoTo 52 := by decide
  have hdouble : twoTo 53 = 2 * twoTo 52 := by decide
  have hpos := twoTo_pos 52
  rcases Nat.eq_zero_or_pos m with rfl | hpositive
  · refine ⟨0, by omega, ?_⟩
    rw [Format.valueOfRank_zero]
    simp
  · obtain ⟨hlog, hlead, hfull⟩ := significand_bounds hpositive.ne' hm
    have hparts := Format.valueOfRank_parts (f := .double) (m := m * twoTo (52 - m.log2))
      (e := e - (52 - m.log2 : Nat)) (by omega) (by omega) (Or.inr (by omega))
    refine ⟨_, ?_, hparts.trans ?_⟩
    · have hunits : (e - (52 - m.log2 : Nat) - -1074).toNat ≤ 1974 := by omega
      have hproduct := Nat.mul_le_mul_right (twoTo 52) hunits
      rw [hleast, hhalf, hinfinity]
      omega
    · rw [Nat.cast_mul, twoTo_cast, mul_assoc, ← zpow_add₀ (by norm_num)]
      congr 2
      omega

/-- **A ratio with few enough bits becomes a number of 64 bits as it is.** -/
theorem amount?_ofRatio {num den m : Nat} {e : Int} (hd : 0 < den) (hm : m < twoTo 53)
    (hlow : -1022 ≤ e) (hhigh : e ≤ 900) (hq : (num / den : ℚ) = m * 2 ^ e) (negative : Bool) :
    (ofRatio negative num den : Binary64).amount? = some (.finite (signed negative (num / den))) := by
  obtain ⟨rank, hless, hvalue⟩ := exists_rank hm hlow hhigh
  have hprecision : 0 < Format.double.precision := by decide
  have hrank := Format.rankOfRatio_valueOfRank hprecision hd hless.le (hq.trans hvalue.symm)
  have hfits := rank_lt_of_le hless.le
  unfold ofRatio
  rw [hrank, amount?_of_lt (by rwa [rank_ofRank hprecision hfits]), negative_ofRank hprecision hfits,
    rank_ofRank hprecision hfits, hvalue, hq]

/-- **A number of 32 bits amounts to the same as a number of 64 bits.** -/
theorem amount?_widened {x : Binary32} (hx : x.isNaN = false) :
    (x.convert .double).amount? = x.amount? := by
  have hnan : ¬ Format.single.infinityRank < x.rank := by simpa [isNaN] using hx
  unfold convert
  rcases Nat.lt_or_eq_of_le (Nat.not_lt.mp hnan) with hlt | heq
  · have hsmallest : (-149 : Int) ≤ Format.single.exponentOfRank x.rank :=
      Format.leastExponent_le Format.single x.rank
    have hgreatest : Format.single.exponentOfRank x.rank ≤ 104 := by
      have hfield : x.rank / twoTo 23 < 255 := Nat.div_lt_of_lt_mul (by rwa [Nat.mul_comm])
      show (-149 : Int) + ((x.rank / twoTo 23 - 1 : Nat) : Int) ≤ 104
      omega
    have hsize : Format.single.significandOfRank x.rank < twoTo 53 :=
      Nat.lt_trans (Format.significandOfRank_lt Format.single x.rank) (by decide)
    have hq := Format.dyadic_div (Format.single.significandOfRank x.rank)
      (Format.single.exponentOfRank x.rank)
    rw [amount?_of_lt hlt]
    unfold read
    rw [if_pos hlt]
    show (ofRatio _ _ _ : Binary64).amount? = _
    rw [amount?_ofRatio (twoTo_pos _) hsize (by omega) (by omega) hq, hq]
    rfl
  · have hprecision : 0 < Format.double.precision := by decide
    have hfits := rank_lt_of_le (le_refl Format.double.infinityRank)
    rw [amount?_of_eq heq]
    unfold read
    rw [if_neg (by omega), if_pos heq]
    show (ofRank _ _ : Binary64).amount? = _
    rw [amount?_of_eq (rank_ofRank hprecision hfits _), negative_ofRank hprecision hfits]

/-- **An integer amounts to itself as a number of 64 bits.** -/
theorem amount?_ofInt {i : Int} (hi : i.natAbs < twoTo 53) :
    (ofInt i : Binary64).amount? = some (.finite i) := by
  have hq : ((i.natAbs : Nat) / (1 : Nat) : ℚ) = i.natAbs * 2 ^ (0 : Int) := by simp
  unfold ofInt
  rw [amount?_ofRatio Nat.one_pos hi (by omega) (by omega) hq]
  congr 2
  unfold signed
  rw [Nat.cast_one, div_one]
  rcases Int.lt_or_le i 0 with hlt | hle
  · rw [if_pos (by simpa using hlt), ← Int.cast_natCast, Int.ofNat_natAbs_of_nonpos hlt.le]
    simp
  · rw [if_neg (by simpa using hle), ← Int.cast_natCast, Int.natAbs_of_nonneg hle]

end Binary

end InstrumentFlow.Numeric
