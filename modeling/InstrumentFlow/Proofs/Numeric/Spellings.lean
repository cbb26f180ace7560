import InstrumentFlow.Numeric.Decimal
import Mathlib.Data.List.TakeWhile

/-!
# How numbers may be spelled

* `IsDigits`, `SpellsInteger` -- digits, and digits with an optional sign;
* `IsFraction`, `IsExponent`, `IsMagnitude`, `SpellsNumber` -- decimal notation and the names of
  what is no finite number;
* `readInteger?_eq_some_iff`, `readInt32?_eq_some_iff` -- whole numbers are read as spelled;
* `isSome_readBinary?_iff` -- **a number is read from its spellings** and from no other text.
-/

namespace InstrumentFlow.Numeric

/-! ## 1. Spellings -/

def AllDigits (cs : List Char) : Prop := ∀ c ∈ cs, isDigit c = true

/-- At least one digit, and nothing else. -/
def IsDigits (cs : List Char) : Prop := cs ≠ [] ∧ AllDigits cs

/-- **A whole number as it may be spelled**, with zeros in front and with or without a sign. -/
inductive SpellsInteger : List Char → Int → Prop
  | plain {digits : List Char} : IsDigits digits → SpellsInteger digits (digitsValue digits)
  | plus {digits : List Char} : IsDigits digits → SpellsInteger ('+' :: digits) (digitsValue digits)
  | minus {digits : List Char} :
      IsDigits digits → SpellsInteger ('-' :: digits) (-(digitsValue digits : Int))

/-- A whole number that fits 32 bits. -/
def SpellsInt32 (cs : List Char) (n : Int32) : Prop := SpellsInteger cs n.toInt

/-- Nothing, or a point, after which there may be digits. -/
def IsFraction (cs : List Char) : Prop := cs = [] ∨ ∃ digits, AllDigits digits ∧ cs = '.' :: digits

/-- Nothing, or `e` with a whole number. -/
def IsExponent (cs : List Char) : Prop :=
  cs = [] ∨ ∃ c more i, (c = 'e' ∨ c = 'E') ∧ SpellsInteger more i ∧ cs = c :: more

/-- Decimal notation: a digit stands before or after the point. -/
def IsMagnitude (cs : List Char) : Prop :=
  ∃ whole fraction exponent, AllDigits whole ∧ IsFraction fraction ∧ IsExponent exponent
    ∧ (∃ c ∈ whole ++ fraction, isDigit c = true) ∧ cs = whole ++ (fraction ++ exponent)

/-- The names of an infinity and of no number, in any mixture of upper and lower case. -/
def IsName (cs : List Char) : Prop :=
  cs.map Char.toLower ∈ ["inf".toList, "infinity".toList, "nan".toList]

/-- **A number as it may be spelled**, with or without a sign. -/
inductive SpellsNumber : List Char → Prop
  | plain {cs : List Char} : IsName cs ∨ IsMagnitude cs → SpellsNumber cs
  | plus {cs : List Char} : IsName cs ∨ IsMagnitude cs → SpellsNumber ('+' :: cs)
  | minus {cs : List Char} : IsName cs ∨ IsMagnitude cs → SpellsNumber ('-' :: cs)

/-! ## 2. Whole numbers -/

/-- A text that begins with neither sign is the rest after its sign. -/
theorem splitSign_of_head {cs : List Char} (h : ∀ c ∈ cs.head?, c ≠ '-' ∧ c ≠ '+') :
    splitSign cs = (false, cs) := by
  unfold splitSign
  split
  · exact absurd rfl (h '-' rfl).1
  · exact absurd rfl (h '+' rfl).2
  · rfl

theorem isDigit_sign {c : Char} (h : isDigit c = true) : c ≠ '-' ∧ c ≠ '+' := by
  constructor <;> rintro rfl <;> exact absurd h (by decide)

theorem splitSign_digits {cs : List Char} (h : AllDigits cs) : splitSign cs = (false, cs) :=
  splitSign_of_head fun c hc => isDigit_sign (h c (List.mem_of_mem_head? hc))

/-- What is left of a text with its sign taken off, and how it is put on again. -/
theorem splitSign_cases (cs : List Char) :
    cs = '-' :: (splitSign cs).2 ∧ (splitSign cs).1 = true
      ∨ cs = '+' :: (splitSign cs).2 ∧ (splitSign cs).1 = false
      ∨ splitSign cs = (false, cs) := by
  unfold splitSign
  split
  · exact .inl ⟨rfl, rfl⟩
  · exact .inr (.inl ⟨rfl, rfl⟩)
  · exact .inr (.inr rfl)

theorem isDigits_iff {cs : List Char} :
    IsDigits cs ↔ (cs.isEmpty || !cs.all isDigit) = false := by
  simp [IsDigits, AllDigits]

theorem readInteger?_of_digits {cs digits : List Char} (negative : Bool)
    (hsign : splitSign cs = (negative, digits)) (h : IsDigits digits) :
    readInteger? cs
      = some (if negative then -(digitsValue digits : Int) else digitsValue digits) := by
  rw [readInteger?, hsign]
  simp [isDigits_iff.mp h]

/-- **A whole number is read as it is spelled.** -/
theorem readInteger?_eq_some_iff {cs : List Char} {i : Int} :
    readInteger? cs = some i ↔ SpellsInteger cs i := by
  constructor
  · intro h
    unfold readInteger? at h
    dsimp only at h
    split at h
    · cases h
    · next hdigits =>
      have hdigits := isDigits_iff.mpr (Bool.eq_false_iff.mpr hdigits)
      obtain rfl := Option.some.inj h
      obtain ⟨heq, hsign⟩ | ⟨heq, hsign⟩ | heq := splitSign_cases cs
      · rw [hsign, if_pos rfl]
        exact heq ▸ .minus hdigits
      · rw [hsign, if_neg Bool.false_ne_true]
        exact heq ▸ .plus hdigits
      · rw [heq, if_neg Bool.false_ne_true]
        rw [heq] at hdigits
        exact .plain hdigits
  · rintro (h | h | h)
    · exact readInteger?_of_digits false (splitSign_digits h.2) h
    · exact readInteger?_of_digits false rfl h
    · exact readInteger?_of_digits true rfl h

/-- **A whole number of 32 bits is read as it is spelled.** -/
theorem readInt32?_eq_some_iff {cs : List Char} {n : Int32} :
    readInt32? cs = some n ↔ SpellsInt32 cs n := by
  have hreach : (twoTo 31 : Int) = 2 ^ 31 := rfl
  rw [SpellsInt32, ← readInteger?_eq_some_iff, readInt32?, hreach]
  cases readInteger? cs with
  | none => simp
  | some i =>
    have hlow := n.le_toInt
    have hhigh := n.toInt_lt
    constructor
    · intro h
      dsimp only at h
      split at h
      · next hfits =>
        obtain rfl := Option.some.inj h
        rw [Int32.toInt_ofInt_of_le hfits.1 hfits.2]
      · cases h
    · intro h
      obtain rfl := Option.some.inj h
      dsimp only
      rw [if_pos ⟨hlow, hhigh⟩, Int32.ofInt_toInt]

theorem readInt32?_eq_none_iff {cs : List Char} :
    readInt32? cs = none ↔ ∀ n, ¬SpellsInt32 cs n := by
  simp only [Option.eq_none_iff_forall_ne_some, ne_eq, readInt32?_eq_some_iff]

/-! ## 3. Decimal notation -/

theorem isSome_readExponent?_iff {cs : List Char} :
    (readExponent? cs).isSome = true ↔ IsExponent cs := by
  cases cs with
  | nil => simp [readExponent?, IsExponent]
  | cons c more =>
    rw [readExponent?]
    constructor
    · intro h
      split at h
      · next hc =>
        obtain ⟨i, hi⟩ := Option.isSome_iff_exists.mp h
        exact .inr ⟨c, more, i, hc, readInteger?_eq_some_iff.mp hi, rfl⟩
      · cases h
    · rintro (h | ⟨c', more', i, hc, hi, h⟩)
      · cases h
      · obtain ⟨rfl, rfl⟩ := List.cons.inj h
        rw [if_pos hc, readInteger?_eq_some_iff.mpr hi]
        rfl

/-- What may follow the digits of a number does not begin with one. -/
theorem IsExponent.head {cs : List Char} (h : IsExponent cs) :
    ∀ c ∈ cs.head?, isDigit c = false ∧ c ≠ '.' := by
  obtain rfl | ⟨c, more, i, hc, -, rfl⟩ := h
  · nofun
  · rintro d ⟨⟩
    obtain rfl | rfl := hc <;> decide

theorem isDigit_not_fraction {fraction exponent : List Char} (hf : IsFraction fraction)
    (he : IsExponent exponent) : ∀ c ∈ (fraction ++ exponent).head?, isDigit c = false := by
  obtain rfl | ⟨digits, -, rfl⟩ := hf
  · exact fun c hc => (he.head c hc).1
  · rintro c ⟨⟩
    rfl

/-- The digits in front of what does not begin with one. -/
theorem takeWhile_digits_append {digits rest : List Char} (hd : AllDigits digits)
    (hr : ∀ c ∈ rest.head?, isDigit c = false) :
    (digits ++ rest).takeWhile isDigit = digits ∧ (digits ++ rest).dropWhile isDigit = rest := by
  rw [List.takeWhile_append_of_pos hd, List.dropWhile_append_of_pos hd]
  cases rest with
  | nil => simp
  | cons c rest => simp [hr c rfl]

theorem allDigits_takeWhile (cs : List Char) : AllDigits (cs.takeWhile isDigit) :=
  fun _ => List.mem_takeWhile_imp

/-- The digits after a point, and what stands behind them. -/
def splitFraction : List Char → List Char × List Char
  | '.' :: more => (more.takeWhile isDigit, more.dropWhile isDigit)
  | rest => ([], rest)

theorem readMagnitude?_eq (negative : Bool) (cs : List Char) : readMagnitude? negative cs
    = if (cs.takeWhile isDigit).isEmpty && (splitFraction (cs.dropWhile isDigit)).1.isEmpty then none
      else (readExponent? (splitFraction (cs.dropWhile isDigit)).2).map fun exponent =>
        ⟨negative, digitsValue (cs.takeWhile isDigit ++ (splitFraction (cs.dropWhile isDigit)).1),
          exponent - (splitFraction (cs.dropWhile isDigit)).1.length⟩ := by
  unfold readMagnitude?
  dsimp only
  split
  · next more hpoint =>
    rw [hpoint, splitFraction]
    dsimp only
    cases readExponent? (more.dropWhile isDigit) <;> rfl
  · next hno =>
    have hsplit : splitFraction (cs.dropWhile isDigit) = ([], cs.dropWhile isDigit) := by
      rw [splitFraction]
      exact hno
    rw [hsplit]
    dsimp only
    cases readExponent? (cs.dropWhile isDigit) <;> rfl

/-- What is taken off as the digits after a point was spelled as such. -/
theorem splitFraction_spec (rest : List Char) : ∃ fraction, IsFraction fraction
    ∧ rest = fraction ++ (splitFraction rest).2
    ∧ ∀ c ∈ (splitFraction rest).1, c ∈ fraction ∧ isDigit c = true := by
  unfold splitFraction
  split
  · next more =>
    exact ⟨'.' :: more.takeWhile isDigit, .inr ⟨_, allDigits_takeWhile more, rfl⟩,
      by simp [List.takeWhile_append_dropWhile],
      fun c hc => ⟨List.mem_cons_of_mem '.' hc, allDigits_takeWhile more c hc⟩⟩
  · exact ⟨[], .inl rfl, rfl, nofun⟩

/-- What was spelled as digits after a point is taken off as such. -/
theorem splitFraction_append {fraction exponent : List Char} (hf : IsFraction fraction)
    (he : IsExponent exponent) : (splitFraction (fraction ++ exponent)).2 = exponent
      ∧ ∀ c ∈ fraction, isDigit c = true → c ∈ (splitFraction (fraction ++ exponent)).1 := by
  obtain rfl | ⟨digits, hdigits, rfl⟩ := hf
  · have hpoint : ∀ more, exponent ≠ '.' :: more := by
      rintro more rfl
      exact (he.head '.' rfl).2 rfl
    rw [List.nil_append, splitFraction]
    · exact ⟨rfl, nofun⟩
    · exact hpoint
  · have hsplit := takeWhile_digits_append hdigits fun c hc => (he.head c hc).1
    refine ⟨hsplit.2, fun c hc hdigit => ?_⟩
    show c ∈ (digits ++ exponent).takeWhile isDigit
    rw [hsplit.1]
    obtain rfl | hc := List.mem_cons.mp hc
    · cases hdigit
    · exact hc

/-- **Decimal notation is what is read as such.** -/
theorem isSome_readMagnitude?_iff {negative : Bool} {cs : List Char} :
    (readMagnitude? negative cs).isSome = true ↔ IsMagnitude cs := by
  rw [readMagnitude?_eq]
  constructor
  · intro h
    split at h
    · cases h
    · next hsome =>
      rw [Option.isSome_map, isSome_readExponent?_iff] at h
      obtain ⟨fraction, hfraction, hrest, hmem⟩ := splitFraction_spec (cs.dropWhile isDigit)
      refine ⟨cs.takeWhile isDigit, fraction, _, allDigits_takeWhile cs, hfraction, h, ?_, ?_⟩
      · rw [Bool.and_eq_true, not_and_or, List.isEmpty_iff, List.isEmpty_iff] at hsome
        obtain hsome | hsome := hsome
        · obtain ⟨c, hc⟩ := List.exists_mem_of_ne_nil _ hsome
          exact ⟨c, List.mem_append_left _ hc, allDigits_takeWhile cs c hc⟩
        · obtain ⟨c, hc⟩ := List.exists_mem_of_ne_nil _ hsome
          exact ⟨c, List.mem_append_right _ (hmem c hc).1, (hmem c hc).2⟩
      · rw [← hrest, List.takeWhile_append_dropWhile]
  · rintro ⟨whole, fraction, exponent, hwhole, hfraction, hexponent, ⟨c, hc, hdigit⟩, rfl⟩
    obtain ⟨htaken, hleft⟩ := takeWhile_digits_append hwhole
      (isDigit_not_fraction hfraction hexponent)
    obtain ⟨htail, hdigits⟩ := splitFraction_append hfraction hexponent
    rw [htaken, hleft, htail, if_neg, Option.isSome_map]
    · exact isSome_readExponent?_iff.mpr hexponent
    · rw [Bool.and_eq_true, List.isEmpty_iff, List.isEmpty_iff]
      rintro ⟨rfl, hnone⟩
      have := hdigits c hc hdigit
      rw [hnone] at this
      cases this

/-! ## 4. Signs and names -/

/-- A text that is spelled as a number begins with nothing else, its sign taken off. -/
theorem head_of_isName {cs : List Char} (h : IsName cs) :
    ∀ c ∈ cs.head?, c ≠ '-' ∧ c ≠ '+' ∧ c ≠ '"' := by
  have hothers : ∀ name ∈ ["inf".toList, "infinity".toList, "nan".toList],
      name.head? ≠ some '-' ∧ name.head? ≠ some '+' ∧ name.head? ≠ some '"' := by decide
  intro c hc
  have hhead : (cs.map Char.toLower).head? = some c.toLower := by
    rw [List.head?_map, hc]
    rfl
  have hname := hothers _ h
  rw [hhead] at hname
  refine ⟨?_, ?_, ?_⟩ <;> rintro rfl
  · exact hname.1 rfl
  · exact hname.2.1 rfl
  · exact hname.2.2 rfl

theorem head_of_isMagnitude {cs : List Char} (h : IsMagnitude cs) :
    ∀ c ∈ cs.head?, c ≠ '-' ∧ c ≠ '+' ∧ c ≠ '"' := by
  obtain ⟨whole, fraction, exponent, hwhole, hfraction, -, hsome, rfl⟩ := h
  intro c hc
  cases whole with
  | cons d whole =>
    obtain rfl := Option.some.inj hc
    have hdigit := hwhole d List.mem_cons_self
    refine ⟨?_, ?_, ?_⟩ <;> rintro rfl <;> exact absurd hdigit (by decide)
  | nil =>
    obtain rfl | ⟨digits, -, rfl⟩ := hfraction
    · obtain ⟨d, hd, -⟩ := hsome
      cases hd
    · obtain rfl := Option.some.inj hc
      decide

theorem splitSign_of_unsigned {cs : List Char} (h : IsName cs ∨ IsMagnitude cs) :
    splitSign cs = (false, cs) := splitSign_of_head fun c hc =>
  have hother := h.elim (head_of_isName · c hc) (head_of_isMagnitude · c hc)
  ⟨hother.1, hother.2.1⟩

theorem spellsNumber_iff {cs : List Char} :
    SpellsNumber cs ↔ IsName (splitSign cs).2 ∨ IsMagnitude (splitSign cs).2 := by
  constructor
  · rintro (h | h | h)
    · rwa [splitSign_of_unsigned h]
    · exact h
    · exact h
  · intro h
    obtain ⟨heq, -⟩ | ⟨heq, -⟩ | heq := splitSign_cases cs
    · exact heq ▸ .minus h
    · exact heq ▸ .plus h
    · rw [heq] at h
      exact .plain h

theorem isName_iff {cs : List Char} : IsName cs
    ↔ (cs.map Char.toLower = "inf".toList ∨ cs.map Char.toLower = "infinity".toList)
      ∨ cs.map Char.toLower = "nan".toList := by
  rw [IsName, List.mem_cons, List.mem_cons, List.mem_singleton, or_assoc]

/-- **A number is read from its spellings**, and from no other text. -/
theorem isSome_readBinary?_iff {f : Format} {cs : List Char} :
    (readBinary? f cs).isSome = true ↔ SpellsNumber cs := by
  rw [spellsNumber_iff, readBinary?]
  dsimp only
  split
  · next h => exact iff_of_true rfl (.inl (isName_iff.mpr (.inl h)))
  · next hinfinity =>
    split
    · next h => exact iff_of_true rfl (.inl (isName_iff.mpr (.inr h)))
    · next hnan =>
      rw [Option.isSome_map, isSome_readMagnitude?_iff, or_iff_right]
      exact fun hname => (isName_iff.mp hname).elim hinfinity hnan

theorem readBinary?_eq_none_iff {f : Format} {cs : List Char} :
    readBinary? f cs = none ↔ ¬SpellsNumber cs := by
  rw [← isSome_readBinary?_iff (f := f), Option.not_isSome_iff_eq_none]

/-- No number is spelled with a quotation mark in front. -/
theorem not_spellsNumber_mark (cs : List Char) : ¬SpellsNumber ('"' :: cs) := by
  rintro (h | _ | _)
  obtain h | h := h
  · exact (head_of_isName h '"' rfl).2.2 rfl
  · exact (head_of_isMagnitude h '"' rfl).2.2 rfl

/-- A whole number is a number. -/
theorem SpellsInteger.spellsNumber {cs : List Char} {i : Int} (h : SpellsInteger cs i) :
    SpellsNumber cs := by
  have hmagnitude {digits : List Char} (h : IsDigits digits) : IsMagnitude digits := by
    obtain ⟨c, hc⟩ := List.exists_mem_of_ne_nil _ h.1
    exact ⟨digits, [], [], h.2, .inl rfl, .inl rfl, ⟨c, List.mem_append_left _ hc, h.2 c hc⟩,
      by simp⟩
  obtain h | h | h := h
  · exact .plain (.inr (hmagnitude h))
  · exact .plus (.inr (hmagnitude h))
  · exact .minus (.inr (hmagnitude h))

end InstrumentFlow.Numeric
