import InstrumentFlow.Json.Reader

/-!
# Numbers of JSON

* `IsDigits`, `IsWhole`, `IsFraction`, `IsExponent`, `IsMagnitude`, `IsNumber` -- how a number may
  be spelled;
* `Ends` -- what may stand behind a number;
* `readNumber?_append` -- a number is read in full, and what stands behind it is left.
-/

namespace InstrumentFlow.Json

/-! ## 1. Spellings -/

/-- At least one digit, and nothing else. -/
def IsDigits (cs : List Char) : Prop := cs ≠ [] ∧ ∀ c ∈ cs, isJsonDigit c = true

/-- Digits without a zero in front of further digits. -/
def IsWhole (cs : List Char) : Prop := IsDigits cs ∧ (cs.head? = some '0' → cs = ['0'])

/-- Nothing, or a point with digits. -/
def IsFraction (cs : List Char) : Prop := cs = [] ∨ ∃ digits, IsDigits digits ∧ cs = '.' :: digits

/-- Nothing, or an exponent with its sign. -/
def IsExponent (cs : List Char) : Prop :=
  cs = [] ∨ ∃ sign digits, (sign = '+' ∨ sign = '-') ∧ IsDigits digits ∧ cs = 'e' :: sign :: digits

/-- A number without its sign. -/
def IsMagnitude (cs : List Char) : Prop :=
  ∃ whole fraction exponent, IsWhole whole ∧ IsFraction fraction ∧ IsExponent exponent ∧
    cs = whole ++ (fraction ++ exponent)

/-- **A number as it may be spelled.** -/
def IsNumber (cs : List Char) : Prop :=
  ∃ (negative : Bool) (magnitude : List Char),
    IsMagnitude magnitude ∧ cs = (if negative then ['-'] else []) ++ magnitude

/-- Nothing that could belong to a number stands in front. -/
def Ends (rest : List Char) : Prop :=
  ∀ c ∈ rest.head?, isJsonDigit c = false ∧ c ≠ '.' ∧ c ≠ 'e' ∧ c ≠ 'E'

/-! ## 2. Reading them -/

section Reading

variable {cs rest : List Char}

theorem readDigits?_append (digits : IsDigits cs) (ends : ∀ c ∈ rest.head?, isJsonDigit c = false) :
    readDigits? (cs ++ rest) = some (cs, rest) := by
  have taken : (cs ++ rest).takeWhile isJsonDigit = cs := by
    rw [List.takeWhile_append_of_pos digits.2]
    cases rest <;> simp_all
  have left : (cs ++ rest).dropWhile isJsonDigit = rest := by
    rw [List.dropWhile_append_of_pos digits.2]
    cases rest <;> simp_all
  simp [readDigits?, taken, left, digits.1]

theorem readWhole?_append (whole : IsWhole cs) (ends : ∀ c ∈ rest.head?, isJsonDigit c = false) :
    readWhole? (cs ++ rest) = some (cs, rest) := by
  rw [readWhole?, readDigits?_append whole.1 ends]
  split
  · next read =>
    obtain ⟨rfl, -⟩ := by simpa using read
    simpa using whole.2 rfl
  · rfl

theorem readFraction?_append (fraction : IsFraction cs)
    (ends : ∀ c ∈ rest.head?, isJsonDigit c = false ∧ c ≠ '.') :
    readFraction? (cs ++ rest) = some (cs, rest) := by
  rcases fraction with rfl | ⟨digits, all, rfl⟩
  · rcases rest with _ | ⟨c, rest⟩
    · rfl
    · rw [List.nil_append, readFraction?]
      simpa using fun same => (ends c rfl).2 same
  · simp [readFraction?, readDigits?_append all fun c at_ => (ends c at_).1]

theorem readExponent?_append (exponent : IsExponent cs) (ends : Ends rest) :
    readExponent? (cs ++ rest) = some (cs, rest) := by
  rcases exponent with rfl | ⟨sign, digits, either, all, rfl⟩
  · rcases rest with _ | ⟨c, rest⟩
    · rfl
    · have ⟨_, _, small, capital⟩ := ends c rfl
      simp [readExponent?, small, capital]
  · have read := readDigits?_append all fun c at_ => (ends c at_).1
    rcases either with rfl | rfl <;> simp [readExponent?, read]

end Reading

/-! ## 3. What a number begins with -/

theorem IsExponent.ends {cs rest : List Char} (exponent : IsExponent cs) (ends : Ends rest) :
    ∀ c ∈ (cs ++ rest).head?, isJsonDigit c = false ∧ c ≠ '.' := by
  rcases exponent with rfl | ⟨sign, digits, -, -, rfl⟩
  · exact fun c at_ => ⟨(ends c at_).1, (ends c at_).2.1⟩
  · rintro c ⟨⟩
    decide

theorem IsFraction.ends {cs rest : List Char} (fraction : IsFraction cs)
    (ends : ∀ c ∈ rest.head?, isJsonDigit c = false ∧ c ≠ '.') :
    ∀ c ∈ (cs ++ rest).head?, isJsonDigit c = false := by
  rcases fraction with rfl | ⟨digits, -, rfl⟩
  · exact fun c at_ => (ends c at_).1
  · rintro c ⟨⟩
    decide

/-- A digit begins a whole part. -/
theorem IsWhole.exists_cons {cs : List Char} (whole : IsWhole cs) :
    ∃ c more, cs = c :: more ∧ isJsonDigit c = true := by
  obtain ⟨c, more, rfl⟩ := List.exists_cons_of_ne_nil whole.1.1
  exact ⟨c, more, rfl, whole.1.2 c (by simp)⟩

/-- **A number is read in full**, and what stands behind it is left. -/
theorem readNumber?_append {cs rest : List Char} (number : IsNumber cs) (ends : Ends rest) :
    readNumber? (cs ++ rest) = some (cs, rest) := by
  obtain ⟨negative, _, ⟨whole, fraction, exponent, isWhole, isFraction, isExponent, rfl⟩, rfl⟩ :=
    number
  have afterWhole := isExponent.ends ends
  have readWhole := readWhole?_append isWhole (isFraction.ends afterWhole)
  have readFraction := readFraction?_append isFraction afterWhole
  have readExponent := readExponent?_append isExponent ends
  obtain ⟨c, more, rfl, digit⟩ := isWhole.exists_cons
  have unsigned : c ≠ '-' := by
    rintro rfl
    exact absurd digit (by decide)
  cases negative with
  | true =>
    simp only [if_true, List.cons_append, List.nil_append, List.append_assoc] at *
    simp [readNumber?, readWhole, readFraction, readExponent]
  | false =>
    simp only [Bool.false_eq_true, if_false, List.cons_append, List.nil_append,
      List.append_assoc] at *
    simp [readNumber?, unsigned, readWhole, readFraction, readExponent]

/-- A number begins with a digit or a minus. -/
theorem IsNumber.exists_cons {cs : List Char} (number : IsNumber cs) :
    ∃ c more, cs = c :: more ∧ (isJsonDigit c = true ∨ c = '-') := by
  obtain ⟨negative, _, ⟨whole, fraction, exponent, isWhole, -, -, rfl⟩, rfl⟩ := number
  obtain ⟨c, more, rfl, digit⟩ := isWhole.exists_cons
  cases negative with
  | true => exact ⟨'-', _, rfl, .inr rfl⟩
  | false => exact ⟨c, _, rfl, .inl digit⟩

end InstrumentFlow.Json
