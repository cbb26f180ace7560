import InstrumentFlow.Json.Number
import InstrumentFlow.Proofs.Json.Grammar
import InstrumentFlow.Proofs.Numeric.Shortest
import Mathlib.Algebra.Group.Int.Defs
import Mathlib.Data.List.TakeWhile

/-!
# Numbers in JSON come back

* `digitsValue_toDigits`, `isWhole_toDigits` -- the digits of a number;
* `isNumber_ofInt` -- a whole number is spelled as JSON wants it;
* `integer?_ofInt` -- and its spelling stands for it, as long as it fits 64 bits;
* `isMagnitude_plainText`, `isMagnitude_exponentText` -- the two notations are spelled as JSON wants
  it;
* `isNumber_text` -- so is every finite number.
-/

namespace InstrumentFlow.Json

open Numeric

/-! ## 1. Digits -/

theorem isDigit_of_mem_toDigits {n : Nat} {c : Char} (digit : c ∈ Nat.toDigits 10 n) :
    isDigit c = true := by
  have is := Nat.isDigit_of_mem_toDigits (by decide) (by decide) digit
  simpa [isDigit, Char.isDigit, Char.le_def] using is

theorem digitsValue_toDigits (n : Nat) : digitsValue (Nat.toDigits 10 n) = n := by
  have value := Nat.ofDigitChars_toDigits (b := 10) (n := n) (by decide) (by decide)
  rw [Nat.ofDigitChars_eq_foldl] at value
  exact value

theorem isDigits_toDigits (n : Nat) : IsDigits (Nat.toDigits 10 n) :=
  ⟨Nat.toDigits_ne_nil, fun _ digit => isDigit_of_mem_toDigits digit⟩

theorem isWhole_toDigits (n : Nat) : IsWhole (Nat.toDigits 10 n) := by
  refine ⟨isDigits_toDigits n, fun zero => ?_⟩
  rcases Nat.eq_zero_or_pos n with rfl | positive
  · rfl
  · exact absurd zero (head?_toDigits positive)

/-! ## 2. Whole numbers -/

/-- The spelling of a whole number. -/
def integerSpelling (i : Int) : List Char :=
  (if i < 0 then ['-'] else []) ++ Nat.toDigits 10 i.natAbs

theorem ofInt_eq (i : Int) : ofInt i = number (integerSpelling i) := rfl

theorem isNumber_integerSpelling (i : Int) : IsNumber (integerSpelling i) :=
  ⟨decide (i < 0), Nat.toDigits 10 i.natAbs,
    ⟨_, [], [], isWhole_toDigits i.natAbs, .inl rfl, .inl rfl, by simp⟩, by simp [integerSpelling]⟩

/-- The parts of a spelling that has neither point nor exponent. -/
theorem ofChars_integerSpelling (i : Int) :
    Spelling.ofChars (integerSpelling i)
      = ⟨decide (i < 0), Nat.toDigits 10 i.natAbs, none, none⟩ := by
  have digits := fun c => isDigit_of_mem_toDigits (n := i.natAbs) (c := c)
  have taken : (Nat.toDigits 10 i.natAbs).takeWhile isDigit = Nat.toDigits 10 i.natAbs :=
    List.takeWhile_eq_self_iff.mpr digits
  have left : (Nat.toDigits 10 i.natAbs).dropWhile isDigit = [] :=
    List.dropWhile_eq_nil_iff.mpr digits
  have sign : splitSign (integerSpelling i) = (decide (i < 0), Nat.toDigits 10 i.natAbs) := by
    by_cases negative : i < 0
    · simp [integerSpelling, negative, splitSign]
    · obtain ⟨c, more, shape⟩ := List.exists_cons_of_ne_nil
        (Nat.toDigits_ne_nil (n := i.natAbs) (b := 10))
      have digit : isDigit c = true := digits c (by simp [shape])
      have noMinus : c ≠ '-' := by rintro rfl; exact absurd digit (by decide)
      have noPlus : c ≠ '+' := by rintro rfl; exact absurd digit (by decide)
      simp [integerSpelling, negative, shape, splitSign, noMinus, noPlus]
  simp [Spelling.ofChars, sign, taken, left]

/-- **The spelling of a whole number stands for it.** -/
theorem integer?_integerSpelling {i : Int} (low : -(2 ^ 63) ≤ i) (high : i < 2 ^ 64) :
    (Spelling.ofChars (integerSpelling i)).integer? = some i := by
  have limit : significandLimit = 2 ^ 64 - 1 := rfl
  have width : twoTo 63 = 2 ^ 63 := rfl
  rw [ofChars_integerSpelling, Spelling.integer?]
  simp only [digitsValue_toDigits, decide_eq_true_eq, limit, width]
  split
  · rw [if_pos (by omega)]
    congr 1
    omega
  · rw [if_pos (by omega)]
    congr 1
    omega

/-! ## 3. Digits of binary numbers -/

/-- Digits that do not begin with a zero. -/
structure Leading (digits : List Char) : Prop where
  isDigits : IsDigits digits
  head : digits.head? ≠ some '0'

theorem Leading.isWhole {digits : List Char} (leading : Leading digits) (more : List Char)
    (all : ∀ c ∈ more, isJsonDigit c = true) : IsWhole (digits ++ more) := by
  obtain ⟨c, tail, rfl⟩ := List.exists_cons_of_ne_nil leading.isDigits.1
  refine ⟨⟨by simp, fun d at_ => ?_⟩, fun zero => absurd zero leading.head⟩
  exact (List.mem_append.mp at_).elim (leading.isDigits.2 d) (all d)

theorem isDigits_zero : IsDigits ['0'] :=
  ⟨List.cons_ne_nil _ _, fun _ at_ => List.mem_singleton.mp at_ ▸ rfl⟩

theorem isWhole_zero : IsWhole ['0'] := ⟨isDigits_zero, fun _ => rfl⟩

theorem isFraction_zero : IsFraction ['.', '0'] := .inr ⟨['0'], isDigits_zero, rfl⟩

theorem isJsonDigit_zeros (n : Int) : ∀ c ∈ Layout.zeros n, isJsonDigit c = true := by
  intro c at_
  rw [List.eq_of_mem_replicate at_]
  decide

/-! ## 4. The two notations -/

/-- Plain notation, with a zero kept behind the point of a whole number. -/
theorem isMagnitude_plainText {l : Layout} (keeps : l.keepsFraction = true) {digits : List Char}
    (leading : Leading digits) (point : Int) : IsMagnitude (l.plainText digits point) := by
  have ⟨some_, all⟩ := leading.isDigits
  rw [Layout.plainText]
  split
  · have fraction : IsFraction ('.' :: (Layout.zeros (-point) ++ digits)) := by
      refine .inr ⟨_, ⟨by simp [some_], fun c at_ => ?_⟩, rfl⟩
      exact (List.mem_append.mp at_).elim (isJsonDigit_zeros _ c) (all c)
    exact ⟨_, _, [], isWhole_zero, fraction, .inl rfl, by simp⟩
  · split
    · have whole := leading.isWhole _ (isJsonDigit_zeros (point - digits.length))
      exact ⟨_, _, [], whole, isFraction_zero, .inl rfl, by simp⟩
    · have whole : Leading (digits.take point.toNat) := by
        obtain ⟨c, tail, rfl⟩ := List.exists_cons_of_ne_nil some_
        obtain ⟨n, count⟩ := Nat.exists_eq_add_one_of_ne_zero (by omega : point.toNat ≠ 0)
        rw [count]
        exact ⟨⟨by simp, fun d at_ => all d (List.mem_of_mem_take at_)⟩, leading.head⟩
      have fraction : IsFraction ('.' :: digits.drop point.toNat) := by
        refine .inr ⟨_, ⟨?_, fun d at_ => all d (List.mem_of_mem_drop at_)⟩, rfl⟩
        rw [Ne, List.drop_eq_nil_iff]
        omega
      exact ⟨_, _, [], whole.isWhole [] (by simp), fraction, .inl rfl, by simp⟩

/-- Notation with an exponent. -/
theorem isMagnitude_exponentText {digits : List Char} (leading : Leading digits) (point : Int) :
    IsMagnitude (Layout.exponentText digits point) := by
  have ⟨_, all⟩ := leading.isDigits
  obtain ⟨c, tail, rfl⟩ := List.exists_cons_of_ne_nil leading.isDigits.1
  have whole : IsWhole [c] :=
    ⟨⟨by simp, fun d at_ => all d (by simp_all)⟩, fun zero => absurd zero leading.head⟩
  have signed : IsExponent ('e' :: (if point - 1 < 0 then '-' else '+')
      :: Nat.toDigits 10 (point - 1).natAbs) :=
    .inr ⟨_, _, by split <;> simp, isDigits_toDigits _, rfl⟩
  cases tail with
  | nil => exact ⟨_, [], _, whole, .inl rfl, signed, by simp [Layout.exponentText]⟩
  | cons d tail =>
    have fraction : IsFraction ('.' :: d :: tail) :=
      .inr ⟨_, ⟨by simp, fun e at_ => all e (List.mem_cons_of_mem c at_)⟩, rfl⟩
    exact ⟨_, _, _, whole, fraction, signed, by simp [Layout.exponentText]⟩

theorem isMagnitude_magnitudeText {l : Layout} (keeps : l.keepsFraction = true)
    {digits : List Char} (leading : Leading digits) (point : Int) :
    IsMagnitude (l.magnitudeText digits point) := by
  rw [Layout.magnitudeText]
  split
  · exact isMagnitude_plainText keeps leading point
  · split
    · exact isMagnitude_plainText keeps leading point
    · exact isMagnitude_exponentText leading point

/-! ## 5. Finite numbers -/

theorem leading_shortestDigits {f : Format} (common : f.Common) (tie : Tie) {rank : Nat}
    (positive : 0 < rank) (finite : rank < f.infinityRank) :
    Leading (shortestDigits f tie rank).1 := by
  obtain ⟨c, more, shape, dark, all⟩ := shortestDigits_spec common tie positive finite
  refine ⟨⟨by simp [shape], fun d at_ => ?_⟩, by simpa [shape] using dark⟩
  have digit := all d (shape ▸ at_)
  simpa [isJsonDigit, Char.isDigit, Char.le_def] using digit

/-- **A finite number is spelled as JSON wants it.** -/
theorem isNumber_text {l : Layout} (keeps : l.keepsFraction = true) {f : Format}
    (common : f.Common) {x : Binary f} (finite : x.isFinite = true) :
    IsNumber (l.text x).toList := by
  have bound : x.rank < f.infinityRank := by simpa [Binary.isFinite] using finite
  have isNumber : x.isNaN = false := by simp [Binary.isNaN]; omega
  have isFinite : x.isInfinite = false := by simp [Binary.isInfinite]; omega
  by_cases zero : x.isZero = true
  · have magnitude : IsMagnitude ['0', '.', '0'] :=
      ⟨_, _, [], isWhole_zero, isFraction_zero, .inl rfl, rfl⟩
    exact ⟨x.negative, _, magnitude, by simp [Layout.text, isNumber, isFinite, zero, keeps]⟩
  · have positive : 0 < x.rank := by
      have : x.rank ≠ 0 := by simpa [Binary.isZero] using zero
      omega
    have leading := leading_shortestDigits common l.tie positive bound
    exact ⟨x.negative, _,
      isMagnitude_magnitudeText keeps leading (shortestDigits f l.tie x.rank).2, by
        simp [Layout.text, isNumber, isFinite, zero]⟩

end InstrumentFlow.Json
