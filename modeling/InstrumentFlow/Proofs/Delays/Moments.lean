import InstrumentFlow.Engine.Step
import InstrumentFlow.Proofs.Numeric.Amounts

/-!
# The moment at which a delay ends

A delay is a count of milliseconds, a number of 64 bits. It is divided by 1000, which rounds it to a
number of 64 bits, and then rounded to whole nanoseconds. Both keep the order, so what is known of a
few round counts holds of everything below and above them.

* `Binary.AtLeast` -- a number amounts to so much or more;
* `waited` -- what is negative or no number counts as zero;
* `div_thousand` -- the count of seconds before it is rounded, and `nanosOf_ofRatio`, the count of
  nanoseconds of what it is rounded to;
* `exists_wakeTime?` -- **a delay of fewer seconds ends in time**;
* `le_wakeTime?` -- a delay of so many seconds ends no earlier;
* `wakeTime?_of_atLeast` -- **a delay of 2 ^ 63 seconds or more never has an end**, and
  `exists_wakeTime?_early`, that every shorter one has one if it begins early.
-/

namespace InstrumentFlow

open Numeric

/-! ## 1. Amounts -/

/-- **The number amounts to so much or more.** -/
def Numeric.Binary.AtLeast {f : Format} (x : Binary f) (q : ℚ) : Prop :=
  x.amount? = some (.infinite false) ∨ ∃ p, x.amount? = some (.finite p) ∧ q ≤ p

theorem Numeric.Binary.atLeast_iff {f : Format} {x : Binary f} {p q : ℚ}
    (hx : x.amount? = some (.finite p)) : x.AtLeast q ↔ q ≤ p := by
  unfold Binary.AtLeast
  rw [hx]
  simp

namespace Engine

/-- The milliseconds that are waited: none for what is negative or no number. -/
def waited (millis : Binary64) : Binary64 :=
  if millis.isNaN || millis.negative then .zero else millis

/-- What is waited is infinite, or it is a number that compares like the one that was given. -/
theorem waited_cases (x : Binary64) :
    (x.amount? = some (.infinite false) ∧ (waited x).read = .infinite false)
    ∨ ∃ m e, (waited x).read = .finite false m e
      ∧ ∀ q : ℚ, (x.AtLeast q → q ≤ m * 2 ^ e)
        ∧ (¬ x.AtLeast q → (m * 2 ^ e : ℚ) = 0 ∨ m * 2 ^ e < q) := by
  have hnothing (hw : waited x = .zero) (hx : ∀ q : ℚ, x.AtLeast q → q ≤ 0) :
      ∃ m e, (waited x).read = .finite false m e
        ∧ ∀ q : ℚ, (x.AtLeast q → q ≤ m * 2 ^ e)
          ∧ (¬ x.AtLeast q → (m * 2 ^ e : ℚ) = 0 ∨ m * 2 ^ e < q) := by
    have hzero : (Binary.zero : Binary64).read = .finite false 0 (-1074) := by decide
    refine ⟨0, -1074, hw ▸ hzero, fun q => ?_⟩
    rw [Nat.cast_zero, zero_mul]
    exact ⟨hx q, fun _ => Or.inl rfl⟩
  have hnegative (hsign : x.negative = true) : waited x = .zero := by
    unfold waited
    rw [hsign, Bool.or_true, if_pos rfl]
  have hsame (hle : x.rank ≤ Format.double.infinityRank) (hsign : x.negative = false) :
      waited x = x := by
    have hnan : x.isNaN = false := by simpa [Binary.isNaN] using hle
    unfold waited
    rw [hnan, hsign, Bool.or_false, if_neg Bool.false_ne_true]
  rcases lt_trichotomy x.rank Format.double.infinityRank with hlt | heq | hgt
  · have hamount := Binary.amount?_of_lt hlt
    cases hsign : x.negative with
    | true =>
      refine Or.inr (hnothing (hnegative hsign) fun q hq => ?_)
      rw [Binary.atLeast_iff hamount, hsign] at hq
      exact hq.trans (neg_nonpos.mpr (Format.valueOfRank_nonneg _ _))
    | false =>
      refine Or.inr ⟨Format.double.significandOfRank x.rank, Format.double.exponentOfRank x.rank, ?_,
        fun q => ?_⟩
      · rw [hsame hlt.le hsign]
        unfold Binary.read
        rw [if_pos hlt, hsign]
      · rw [Binary.atLeast_iff hamount, hsign]
        exact ⟨id, fun hq => Or.inr (not_le.mp hq)⟩
  · have hamount := Binary.amount?_of_eq heq
    cases hsign : x.negative with
    | true =>
      refine Or.inr (hnothing (hnegative hsign) fun q hq => ?_)
      unfold Binary.AtLeast at hq
      rw [hamount, hsign] at hq
      simp at hq
    | false =>
      refine Or.inl ⟨hsign ▸ hamount, ?_⟩
      rw [hsame heq.le hsign]
      unfold Binary.read
      rw [if_neg (by omega), if_pos heq, hsign]
  · have hnan : x.isNaN = true := by simpa [Binary.isNaN] using hgt
    refine Or.inr (hnothing ?_ fun q hq => ?_)
    · unfold waited
      rw [hnan, Bool.true_or, if_pos rfl]
    · unfold Binary.AtLeast at hq
      rw [Binary.amount?_of_gt hgt] at hq
      simp at hq

/-! ## 2. Seconds -/

theorem read_thousand :
    (Binary.ofInt 1000 : Binary64).read = .finite false 8796093022208000 (-43) := by decide

/-- The count of seconds is rounded to a number of 64 bits. -/
theorem div_thousand {x : Binary64} {m : Nat} {e : Int} (hx : x.read = .finite false m e) :
    ∃ num den : Nat, 0 < den ∧ (num / den : ℚ) = m * 2 ^ e / 1000
      ∧ x.div (.ofInt 1000) = .ofRatio false num den := by
  refine ⟨m * twoTo (e - -43).toNat, 8796093022208000 * twoTo (-43 - e).toNat,
    Nat.mul_pos (by omega) (twoTo_pos _), ?_, ?_⟩
  · have hpower := twoTo_div (e - -43)
    rw [neg_sub] at hpower
    rw [Nat.cast_mul, Nat.cast_mul, mul_div_mul_comm, hpower, sub_neg_eq_add,
      zpow_add₀ (by norm_num)]
    norm_num
    ring
  · unfold Binary.div
    rw [hx, read_thousand]
    rfl

theorem nanosOf_of_le {y : Binary64} (hy : Format.double.infinityRank ≤ y.rank) :
    nanosOf y = none := by
  unfold nanosOf Binary.read
  rw [if_neg (by omega)]
  by_cases heq : y.rank = Format.double.infinityRank
  · rw [if_pos heq]
  · rw [if_neg heq]

/-- A number of seconds that is no infinity has a count of nanoseconds. -/
theorem nanosOf_ofRatio {num den : Nat}
    (hr : Format.double.rankOfRatio num den < Format.double.infinityRank) :
    ∃ nanos, nanosOf (.ofRatio false num den) = some nanos ∧ ∀ t : Nat,
      (Format.double.valueOfRank (Format.double.rankOfRatio num den) ≤ t
        → nanos ≤ t * nanosPerSecond)
      ∧ (t ≤ Format.double.valueOfRank (Format.double.rankOfRatio num den)
        → t * nanosPerSecond ≤ nanos) := by
  have hprecision : 0 < Format.double.precision := by decide
  have hfits := Binary.rank_lt_of_le hr.le
  unfold Binary.ofRatio nanosOf Binary.read
  generalize Format.double.rankOfRatio num den = rank at hr hfits
  rw [rank_ofRank hprecision hfits, if_pos hr]
  refine ⟨_, rfl, fun t => ?_⟩
  have hnanos : ((Format.double.significandOfRank rank
        * twoTo (Format.double.exponentOfRank rank).toNat * nanosPerSecond : Nat) : ℚ)
      / (twoTo (-Format.double.exponentOfRank rank).toNat : Nat)
      = Format.double.valueOfRank rank * nanosPerSecond := by
    rw [Nat.cast_mul, mul_div_right_comm, Format.dyadic_div]
    rfl
  constructor
  · intro ht
    refine roundHalfEven_le (twoTo_pos _) ?_
    rw [hnanos, Nat.cast_mul]
    exact mul_le_mul_of_nonneg_right ht (Nat.cast_nonneg _)
  · intro ht
    refine le_roundHalfEven (twoTo_pos _) ?_
    rw [hnanos, Nat.cast_mul]
    exact mul_le_mul_of_nonneg_right ht (Nat.cast_nonneg _)

/-! ## 3. Moments -/

theorem wakeTime?_eq (now : Nat) (x : Binary64) :
    wakeTime? now x = (nanosOf ((waited x).div (.ofInt 1000))).bind fun nanos =>
      if now + nanos < momentBound * nanosPerSecond then some (now + nanos) else none := by
  unfold wakeTime? waited
  dsimp only
  cases nanosOf _ <;> rfl

section

variable {now t rank m : Nat} {e : Int}

/-- A delay that is rounded to no more seconds than there are left ends in time. -/
theorem exists_wakeTime?_of_rank (hread : (waited x).read = .finite false m e)
    (hrank : rank < Format.double.infinityRank) (ht : Format.double.valueOfRank rank = t)
    (hle : ∀ num den : Nat, 0 < den → (num / den : ℚ) = m * 2 ^ e / 1000
      → Format.double.rankOfRatio num den ≤ rank)
    (hroom : now + t * nanosPerSecond < momentBound * nanosPerSecond) :
    ∃ wakeAt, wakeTime? now x = some wakeAt ∧ now ≤ wakeAt
      ∧ wakeAt ≤ now + t * nanosPerSecond := by
  obtain ⟨num, den, hd, hq, hdiv⟩ := div_thousand hread
  have hle := hle num den hd hq
  have hless := Nat.lt_of_le_of_lt hle hrank
  obtain ⟨nanos, hnanos, hbounds⟩ := nanosOf_ofRatio hless
  have hmost : nanos ≤ t * nanosPerSecond := by
    refine (hbounds t).1 ?_
    rw [← ht, Format.valueOfRank_le_iff (by decide) hless.le hrank.le]
    exact hle
  refine ⟨now + nanos, ?_, by omega, by omega⟩
  rw [wakeTime?_eq, hdiv, hnanos, Option.bind_some, if_pos (by omega)]

/-- **A delay of fewer seconds ends in time**, and not later than after so many. -/
theorem exists_wakeTime? (hrank : rank < Format.double.infinityRank)
    (ht : Format.double.valueOfRank rank = t) (hx : ¬ x.AtLeast (t * 1000))
    (hroom : now + t * nanosPerSecond < momentBound * nanosPerSecond) :
    ∃ wakeAt, wakeTime? now x = some wakeAt ∧ now ≤ wakeAt
      ∧ wakeAt ≤ now + t * nanosPerSecond := by
  rcases waited_cases x with ⟨hinfinite, _⟩ | ⟨m, e, hread, hcompare⟩
  · exact absurd (Or.inl hinfinite) hx
  · refine exists_wakeTime?_of_rank hread hrank ht (fun num den hd hq => ?_) hroom
    refine Format.rankOfRatio_le (by decide) hd hrank.le ?_
    have hpos : (0 : ℚ) ≤ t := Nat.cast_nonneg t
    rw [hq, ht, div_le_iff₀ (by norm_num)]
    rcases (hcompare _).2 hx with hzero | hlt
    · rw [hzero]
      positivity
    · exact hlt.le

/-- **A delay of so many seconds ends no earlier**, if it has an end. -/
theorem le_wakeTime? (hrank : rank < Format.double.infinityRank)
    (ht : Format.double.valueOfRank rank = t) (hx : x.AtLeast (t * 1000)) {wakeAt : Nat}
    (hw : wakeTime? now x = some wakeAt) : now + t * nanosPerSecond ≤ wakeAt := by
  rw [wakeTime?_eq] at hw
  obtain ⟨nanos, hnanos, hw⟩ := Option.bind_eq_some_iff.mp hw
  have hwake : now + nanos = wakeAt := by
    split at hw
    · exact Option.some.inj hw
    · cases hw
  suffices hleast : t * nanosPerSecond ≤ nanos by omega
  rcases waited_cases x with ⟨_, hread⟩ | ⟨m, e, hread, hcompare⟩
  · have hdiv : (waited x).div (.ofInt 1000) = .infinity false := by
      unfold Binary.div
      rw [hread, read_thousand]
      rfl
    have hinfinite : Format.double.infinityRank ≤ (Binary.infinity false : Binary64).rank := by
      decide
    rw [hdiv, nanosOf_of_le hinfinite] at hnanos
    cases hnanos
  · obtain ⟨num, den, hd, hq, hdiv⟩ := div_thousand hread
    rw [hdiv] at hnanos
    have hle : rank ≤ Format.double.rankOfRatio num den := by
      refine Format.le_rankOfRatio (by decide) hd hrank.le ?_
      rw [hq, ht, le_div_iff₀ (by norm_num)]
      exact (hcompare _).1 hx
    rcases Nat.lt_or_ge (Format.double.rankOfRatio num den) Format.double.infinityRank with
      hless | hmost
    · obtain ⟨_, hsome, hbounds⟩ := nanosOf_ofRatio hless
      cases hnanos.symm.trans hsome
      refine (hbounds t).2 ?_
      rw [← ht, Format.valueOfRank_le_iff (by decide) hrank.le hless.le]
      exact hle
    · have hfits := Binary.rank_lt_of_le (Format.rankOfRatio_le_infinityRank .double num den)
      rw [nanosOf_of_le (by
        unfold Binary.ofRatio
        rwa [rank_ofRank (by decide) hfits])] at hnanos
      cases hnanos

/-- The moment that is named lies before the end of time. -/
theorem wakeTime?_lt {wakeAt : Nat} (hw : wakeTime? now x = some wakeAt) :
    wakeAt < momentBound * nanosPerSecond := by
  rw [wakeTime?_eq] at hw
  obtain ⟨nanos, _, hw⟩ := Option.bind_eq_some_iff.mp hw
  split at hw
  · cases hw
    assumption
  · cases hw

/-! ## 4. The end of time -/

/-- The number of seconds at which time ends, and the greatest number before it. -/
theorem exists_end_rank : ∃ rank, rank + 1 < Format.double.infinityRank
    ∧ Format.double.valueOfRank (rank + 1) = momentBound
    ∧ Format.double.valueOfRank rank = (momentBound - 1024 : Nat)
    ∧ Format.double.rankOfRatio (8796093022207999 * twoTo 20) 1000 = rank := by
  have hend := Format.valueOfRank_parts (f := .double) (m := twoTo 52) (e := 11) (by decide)
    (by decide) (by decide)
  have hlast := Format.valueOfRank_parts (f := .double) (m := twoTo 53 - 1) (e := 10) (by decide)
    (by decide) (by decide)
  refine ⟨1086 * twoTo 52 - 1, by decide, ?_, ?_, by decide +kernel⟩
  · rw [twoTo_cast, ← zpow_add₀ (by norm_num)] at hend
    unfold momentBound
    rw [twoTo_cast]
    exact hend
  · refine hlast.trans ?_
    norm_num [momentBound, twoTo]

theorem valueOfRank_of_read {m : Nat} {e : Int} {y : Binary64} (hread : y.read = .finite false m e) :
    y.rank < Format.double.infinityRank ∧ Format.double.valueOfRank y.rank = m * 2 ^ e := by
  unfold Binary.read at hread
  split at hread
  · next hlt =>
    rw [Reading.finite.injEq] at hread
    obtain ⟨_, rfl, rfl⟩ := hread
    exact ⟨hlt, rfl⟩
  · split at hread <;> cases hread

/-- The greatest number of milliseconds before the end of time. -/
theorem le_of_lt_end {m : Nat} {e : Int} {y : Binary64} (hread : y.read = .finite false m e)
    (hlt : (m * 2 ^ e : ℚ) < momentBound * 1000) :
    (m * 2 ^ e : ℚ) ≤ 8796093022207999 * twoTo 20 := by
  have hnext := Format.valueOfRank_parts (f := .double) (m := 8796093022208000) (e := 20)
    (by decide) (by decide) (by decide)
  have hlast := Format.valueOfRank_parts (f := .double) (m := 8796093022207999) (e := 20)
    (by decide) (by decide) (by decide)
  obtain ⟨hfinite, hvalue⟩ := valueOfRank_of_read hread
  have hend : (momentBound * 1000 : ℚ) = (8796093022208000 : Nat) * 2 ^ (20 : Int) := by
    norm_num [momentBound, twoTo]
  rw [← hvalue, hend, ← hnext, ← not_le,
    Format.valueOfRank_le_iff (by decide) (by decide) hfinite.le] at hlt
  have hless := (Format.valueOfRank_le_iff (f := .double) (by decide) hfinite.le (by decide)).mpr
    (Nat.le_of_lt_succ (Nat.not_le.mp hlt))
  rw [← hvalue]
  refine hless.trans (hlast.trans_le ?_)
  norm_num [twoTo]

/-- **A delay of 2 ^ 63 seconds or more never has an end.** -/
theorem wakeTime?_of_atLeast (now : Nat) (hx : x.AtLeast (momentBound * 1000)) :
    wakeTime? now x = none := by
  obtain ⟨rank, hrank, hend, _⟩ := exists_end_rank
  refine Option.eq_none_iff_forall_ne_some.mpr fun wakeAt hw => ?_
  have hle := le_wakeTime? hrank hend hx hw
  have hlt := wakeTime?_lt hw
  omega

/-- **Every shorter delay has an end** if it begins early enough. -/
theorem exists_wakeTime?_early (hx : ¬ x.AtLeast (momentBound * 1000))
    (hearly : now < 1024 * nanosPerSecond) :
    ∃ wakeAt, wakeTime? now x = some wakeAt ∧ now ≤ wakeAt := by
  obtain ⟨rank, hrank, _, hlast, hrounded⟩ := exists_end_rank
  rcases waited_cases x with ⟨hinfinite, _⟩ | ⟨m, e, hread, hcompare⟩
  · exact absurd (Or.inl hinfinite) hx
  have hroom : now + (momentBound - 1024) * nanosPerSecond < momentBound * nanosPerSecond := by
    have hbound : 1024 ≤ momentBound := by decide
    rw [Nat.sub_mul]
    have := Nat.mul_le_mul_right nanosPerSecond hbound
    omega
  have hle : (m * 2 ^ e : ℚ) ≤ 8796093022207999 * twoTo 20 := by
    refine le_of_lt_end hread ?_
    rcases (hcompare _).2 hx with hzero | hlt
    · rw [hzero]
      norm_num [momentBound, twoTo]
    · exact hlt
  have hrounds (num den : Nat) (hd : 0 < den) (hq : (num / den : ℚ) = m * 2 ^ e / 1000) :
      Format.double.rankOfRatio num den ≤ rank := by
    rw [← hrounded]
    refine Format.rankOfRatio_mono (by decide) hd (by decide) ?_
    rw [hq]
    push_cast
    exact div_le_div_of_nonneg_right hle (by norm_num)
  obtain ⟨wakeAt, hw, hnow, _⟩ :=
    exists_wakeTime?_of_rank hread (by omega) hlast hrounds hroom
  exact ⟨wakeAt, hw, hnow⟩

end

end Engine

end InstrumentFlow
