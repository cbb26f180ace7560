import InstrumentFlow.Numeric.Shortest
import Mathlib.Data.List.DropRight

/-!
# The digits of a binary number

* `Format.Common` -- formats up to the greater of the two in use;
* `Interval.search_pos` -- the search for digits ends at a number other than zero, because its last
  grid is far finer than the number itself;
* `shortestDigits_spec` -- a finite number other than zero has digits, and they do not begin with a
  zero.
-/

namespace InstrumentFlow.Numeric

/-! ## 1. Powers -/

theorem twoTo_add (m n : Nat) : twoTo (m + n) = twoTo m * twoTo n := Nat.pow_add 2 m n

theorem twoTo_mono {m n : Nat} (le : m ≤ n) : twoTo m ≤ twoTo n :=
  Nat.pow_le_pow_right (by decide) le

theorem tenTo_mono {m n : Nat} (le : m ≤ n) : tenTo m ≤ tenTo n :=
  Nat.pow_le_pow_right (by decide) le

/-- Three decimal places take no more than ten binary ones. -/
theorem tenTo_le_twoTo {m n : Nat} (le : 10 * ((m + 2) / 3) ≤ n) : tenTo m ≤ twoTo n := by
  calc tenTo m ≤ tenTo (3 * ((m + 2) / 3)) := tenTo_mono (by omega)
    _ = (10 ^ 3) ^ ((m + 2) / 3) := Nat.pow_mul 10 3 _
    _ ≤ (2 ^ 10) ^ ((m + 2) / 3) := Nat.pow_le_pow_left (by decide) _
    _ = twoTo (10 * ((m + 2) / 3)) := (Nat.pow_mul 2 10 _).symm
    _ ≤ twoTo n := twoTo_mono le

/-- Four decimal places hold thirteen binary ones. -/
theorem twoTo_le_tenTo {m n : Nat} (le : m ≤ 13 * (n / 4)) : twoTo m ≤ tenTo n := by
  calc twoTo m ≤ twoTo (13 * (n / 4)) := twoTo_mono le
    _ = (2 ^ 13) ^ (n / 4) := Nat.pow_mul 2 13 _
    _ ≤ (10 ^ 4) ^ (n / 4) := Nat.pow_le_pow_left (by decide) _
    _ = tenTo (4 * (n / 4)) := (Nat.pow_mul 10 4 _).symm
    _ ≤ tenTo n := tenTo_mono (by omega)

/-! ## 2. Digits -/

theorem digitChar_ne_zero : ∀ n < 10, 0 < n → Nat.digitChar n ≠ '0' := by decide

/-- The first digit of a number other than zero is not zero. -/
theorem head?_toDigits {n : Nat} (positive : 0 < n) : (Nat.toDigits 10 n).head? ≠ some '0' := by
  induction n using Nat.strongRecOn with
  | ind n ih =>
    by_cases small : n < 10
    · rw [Nat.toDigits_of_lt_base small]
      simpa using digitChar_ne_zero n small positive
    · obtain ⟨c, more, shape⟩ :=
        List.exists_cons_of_ne_nil (Nat.toDigits_ne_nil (n := n / 10) (b := 10))
      have first := ih (n / 10) (by omega) (by omega)
      rw [Nat.toDigits_of_base_le (by decide) (by omega)]
      rw [shape] at first ⊢
      exact first

/-! ## 3. The search -/

namespace Interval

variable {i : Interval}

theorem decimalFactor_pos (k : Int) : 0 < i.decimalFactor k :=
  Nat.mul_pos (tenTo_pos _) (twoTo_pos _)

theorem boundFactor_pos (k : Int) : 0 < i.boundFactor k :=
  Nat.mul_pos (tenTo_pos _) (twoTo_pos _)

/-- Zero reads back as no number but zero. -/
theorem not_contains_zero (low : 0 < i.low) (k : Int) : i.contains 0 k = false := by
  have bound : 0 < i.low * i.boundFactor k := Nat.mul_pos low (boundFactor_pos k)
  simp only [contains, Nat.zero_mul]
  split
  · simp [Nat.not_le.mpr bound]
  · simp

theorem pick?_pos (low : 0 < i.low) {tie : Tie} {k : Int} {c : Nat}
    (picked : i.pick? tie k = some c) : 0 < c := by
  -- The neighbour above is one more than another number; the one below must lie in the interval.
  have zero := not_contains_zero low k
  rcases Nat.eq_zero_or_pos c with rfl | positive
  · cases tie <;> grind [pick?]
  · exact positive

theorem search_pos (low : 0 < i.low) (tie : Tie) (more : Nat) (k : Int)
    (reaches : i.decimalFactor (k - more) ≤ i.middle * i.boundFactor (k - more)) :
    0 < (i.search tie more k).1 := by
  induction more generalizing k with
  | zero =>
    rw [search]
    exact Nat.div_pos (by simpa using reaches) (decimalFactor_pos k)
  | succ more ih =>
    rw [search]
    split
    · next picked => exact pick?_pos low picked
    · refine ih (k - 1) ?_
      have same : k - 1 - (more : Int) = k - ((more + 1 : Nat) : Int) := by omega
      rw [same]
      exact reaches

end Interval

/-! ## 4. Formats in use -/

/-- No wider than the 64-bit format. -/
structure Format.Common (f : Format) : Prop where
  precision_pos : 1 ≤ f.precision
  precision_le : f.precision ≤ 53
  exponentBits_le : f.exponentBits ≤ 11

theorem Format.common_single : Format.single.Common := ⟨by decide, by decide, by decide⟩

theorem Format.common_double : Format.double.Common := ⟨by decide, by decide, by decide⟩

namespace Format

variable {f : Format} {rank : Nat}

theorem significandOfRank_pos (positive : 0 < rank) : 0 < f.significandOfRank rank := by
  have := twoTo_pos (f.precision - 1)
  unfold significandOfRank
  split <;> omega

theorem significandOfRank_lt (f : Format) (rank : Nat) :
    f.significandOfRank rank < 2 * twoTo (f.precision - 1) := by
  have := Nat.mod_lt rank (twoTo_pos (f.precision - 1))
  unfold significandOfRank
  split <;> omega

/-- The exponents of a common format stay far from the limits of the search. -/
theorem exponentOfRank_bounds (common : f.Common) (finite : rank < f.infinityRank) :
    -1074 ≤ f.exponentOfRank rank ∧ f.exponentOfRank rank ≤ 2050 := by
  have fields : rank / twoTo (f.precision - 1) < twoTo f.exponentBits - 1 :=
    Nat.div_lt_of_lt_mul (by rw [Nat.mul_comm]; exact finite)
  have most : twoTo f.exponentBits ≤ 2048 := twoTo_mono common.exponentBits_le
  have half : twoTo (f.exponentBits - 1) ≤ 1024 :=
    twoTo_mono (n := 10) (by have := common.exponentBits_le; omega)
  have := twoTo_pos (f.exponentBits - 1)
  have := common.precision_pos
  have := common.precision_le
  simp only [exponentOfRank, leastExponent]
  omega

end Format

/-! ## 5. The digits of a number -/

theorem Interval.low_pos {f : Format} {rank : Nat} (positive : 0 < rank) :
    0 < (Interval.ofRank f rank).low := by
  have := Format.significandOfRank_pos (f := f) positive
  simp only [ofRank]
  split <;> omega

/-- The last of the grids that are tried is finer than the number. -/
theorem Interval.ofRank_reaches {f : Format} {rank : Nat} (common : f.Common) (positive : 0 < rank)
    (finite : rank < f.infinityRank) :
    let i := Interval.ofRank f rank
    let last := decimalPlacesOfBits (i.middle.log2 + 1 + i.unit) - (24 : Nat)
    i.decimalFactor last ≤ i.middle * i.boundFactor last := by
  intro i last
  have ⟨least, greatest⟩ := Format.exponentOfRank_bounds common finite
  have middle : i.middle ≠ 0 := by
    have := Format.significandOfRank_pos (f := f) positive
    simp only [i, ofRank]
    omega
  have bits : twoTo i.middle.log2 ≤ i.middle := Nat.log2_self_le middle
  have few : i.middle.log2 < 55 := by
    have := Format.significandOfRank_lt f rank
    have : twoTo (f.precision - 1) ≤ 2 ^ 52 :=
      twoTo_mono (n := 52) (by have := common.precision_le; omega)
    rw [Nat.log2_lt middle]
    simp only [i, ofRank]
    omega
  have unit : i.unit = f.exponentOfRank rank - 2 := rfl
  have place : last = (i.middle.log2 + 1 + i.unit) * 30103 / 100000 + 1 - 24 := rfl
  generalize i.middle.log2 = b at *
  have factors : tenTo last.toNat * twoTo (-i.unit).toNat
      ≤ twoTo b * (tenTo (-last).toNat * twoTo i.unit.toNat) := by
    rcases Int.le_total 0 last with whole | fraction
    · have ten : tenTo last.toNat ≤ twoTo (b + i.unit).toNat := tenTo_le_twoTo (by omega)
      have one : (-last).toNat = 0 := by omega
      rw [one, tenTo_zero, Nat.one_mul, ← twoTo_add]
      calc tenTo last.toNat * twoTo (-i.unit).toNat
          ≤ twoTo (b + i.unit).toNat * twoTo (-i.unit).toNat := Nat.mul_le_mul_right _ ten
        _ = twoTo ((b + i.unit).toNat + (-i.unit).toNat) := (twoTo_add _ _).symm
        _ ≤ twoTo (b + i.unit.toNat) := twoTo_mono (by omega)
    · have one : last.toNat = 0 := by omega
      rw [one, tenTo_zero, Nat.one_mul]
      calc twoTo (-i.unit).toNat
          ≤ twoTo (b + (-(b + i.unit)).toNat + i.unit.toNat) := twoTo_mono (by omega)
        _ = twoTo b * (twoTo (-(b + i.unit)).toNat * twoTo i.unit.toNat) := by
          rw [twoTo_add, twoTo_add, Nat.mul_assoc]
        _ ≤ twoTo b * (tenTo (-last).toNat * twoTo i.unit.toNat) :=
          Nat.mul_le_mul_left _ (Nat.mul_le_mul_right _ (twoTo_le_tenTo (by omega)))
  exact factors.trans (Nat.mul_le_mul_right _ bits)

/-- Digits that do not begin with a zero keep their first one. -/
theorem stripZeros_cons {c : Char} (dark : c ≠ '0') (more : List Char) :
    ∃ kept, (stripZeros (c :: more)).1 = c :: kept ∧ ∀ d ∈ kept, d ∈ more := by
  have front : (c :: more).rdropWhile (· == '0') <+: c :: more := List.rdropWhile_prefix _ _
  have some_ : (c :: more).rdropWhile (· == '0') ≠ [] := by
    rw [Ne, List.rdropWhile_eq_nil_iff]
    exact fun all => dark (by simpa using all c (by simp))
  obtain ⟨d, kept, shape⟩ := List.exists_cons_of_ne_nil some_
  rw [shape, List.cons_prefix_cons] at front
  obtain ⟨rfl, front⟩ := front
  exact ⟨kept, shape, fun e => front.mem⟩

/-- **A finite number other than zero has digits**, of which the first is not zero. -/
theorem shortestDigits_spec {f : Format} (common : f.Common) (tie : Tie) {rank : Nat}
    (positive : 0 < rank) (finite : rank < f.infinityRank) :
    ∃ c more, (shortestDigits f tie rank).1 = c :: more ∧ c ≠ '0' ∧
      ∀ d ∈ c :: more, d.isDigit = true := by
  have found := Interval.search_pos (Interval.low_pos positive) tie 24 _
    (Interval.ofRank_reaches common positive finite)
  simp only [shortestDigits]
  generalize (Interval.ofRank f rank).search tie 24 _ = hit at found
  have all : ∀ d ∈ Nat.toDigits 10 hit.1, d.isDigit = true := fun d =>
    Nat.isDigit_of_mem_toDigits (by decide) (by decide)
  have first := head?_toDigits found
  obtain ⟨c, more, shape⟩ := List.exists_cons_of_ne_nil (Nat.toDigits_ne_nil (n := hit.1) (b := 10))
  rw [shape] at all first ⊢
  have dark : c ≠ '0' := fun same => first (by rw [same]; rfl)
  obtain ⟨kept, stripped, among⟩ := stripZeros_cons dark more
  refine ⟨c, kept, stripped, dark, ?_⟩
  grind

end InstrumentFlow.Numeric
