import InstrumentFlow.Proofs.Json.Numbers
import InstrumentFlow.Proofs.Numeric.Spellings
import InstrumentFlow.Scpi.Answer
import Mathlib.Data.List.DropRight

/-!
# What an answer is read as

The answer of an instrument is a quoted text, a whole number, a number or a text as it stands. How
it is spelled decides which, and the line ends after it make no difference. In a quoted text the
quotation marks that occur in it are doubled.

* `doubled`, `quoted` -- how a text is quoted;
* `undouble?_eq_some_iff`, `unquote?_eq_some_iff` -- **quotes are taken off what was quoted** and off
  nothing else;
* `pairsOnly`, `collapsed`, `undouble?_eq` -- the same in two scans, one that looks for a quotation
  mark alone and one that replaces pairs;
* `trimLineEnds_append`, `trimLineEnds_spec` -- an answer and the line ends after it;
* `spellsInteger_toString` -- the decimal text of a whole number spells it;
* `ReadAs`, `answerValue_eq_iff` -- **every answer is read as what it spells**;
* `answers_classified` -- **texts and numbers come back**, and an answer that spells nothing else is
  a text.
-/

namespace InstrumentFlow.Scpi

/-! ## 1. Quoting -/

/-- The text with every quotation mark twice. -/
def doubled (cs : List Char) : List Char := cs.flatMap fun c => if c = '"' then ['"', '"'] else [c]

/-- **The quoted form of a text.** -/
def quoted (cs : List Char) : List Char := '"' :: (doubled cs ++ ['"'])

theorem doubled_mark (cs : List Char) : doubled ('"' :: cs) = '"' :: '"' :: doubled cs := rfl

theorem doubled_other {c : Char} (h : c ≠ '"') (cs : List Char) :
    doubled (c :: cs) = c :: doubled cs := by
  simp [doubled, h]

theorem undouble?_other {c : Char} (h : c ≠ '"') (cs : List Char) :
    undouble? (c :: cs) = (undouble? cs).map (c :: ·) := by
  rw [undouble?]
  · rw [if_neg h]
  · rintro rest rfl
    exact absurd rfl h

theorem undouble?_doubled (cs : List Char) : undouble? (doubled cs) = some cs := by
  induction cs with
  | nil => rfl
  | cons c cs ih =>
    by_cases h : c = '"'
    · rw [h, doubled_mark, undouble?, ih]
      rfl
    · rw [doubled_other h, undouble?_other h, ih]
      rfl

/-- A mark that is not followed by a second one stands alone. -/
theorem undouble?_mark {cs : List Char} (h : ∀ rest, cs ≠ '"' :: rest) :
    undouble? ('"' :: cs) = none := by
  rw [undouble?]
  · rw [if_pos rfl]
  · rintro rest - heq
    exact h rest heq

theorem eq_doubled_of_undouble? {cs inner : List Char} (h : undouble? cs = some inner) :
    cs = doubled inner := by
  induction cs using undouble?.induct generalizing inner with
  | case1 =>
    obtain rfl := Option.some.inj h
    rfl
  | case2 rest ih =>
    rw [undouble?, Option.map_eq_some_iff] at h
    obtain ⟨text, htext, rfl⟩ := h
    rw [doubled_mark, ← ih htext]
  | case3 rest hsingle =>
    rw [undouble?_mark fun more heq => hsingle more rfl heq] at h
    cases h
  | case4 c rest hpair hc ih =>
    rw [undouble?_other hc, Option.map_eq_some_iff] at h
    obtain ⟨text, htext, rfl⟩ := h
    rw [doubled_other hc, ← ih htext]

/-- **The marks of a text are taken off in pairs** where they were doubled, and nowhere else. -/
theorem undouble?_eq_some_iff {cs inner : List Char} :
    undouble? cs = some inner ↔ cs = doubled inner := by
  refine ⟨eq_doubled_of_undouble?, ?_⟩
  rintro rfl
  exact undouble?_doubled inner

/-- **Quotes are taken off a quoted text**, and off no other. -/
theorem unquote?_eq_some_iff {cs inner : List Char} :
    unquote? cs = some inner ↔ cs = quoted inner := by
  constructor
  · intro h
    unfold unquote? at h
    split at h
    · next rest =>
      split at h
      · next body hbody =>
        rw [List.reverse_eq_iff, List.reverse_cons] at hbody
        rw [hbody, quoted, ← undouble?_eq_some_iff.mp h]
      · cases h
    · cases h
  · rintro rfl
    rw [quoted, unquote?, List.reverse_append]
    show undouble? (doubled inner).reverse.reverse = some inner
    rw [List.reverse_reverse, undouble?_doubled]

theorem unquote?_eq_none_iff {cs : List Char} :
    unquote? cs = none ↔ ∀ inner, cs ≠ quoted inner := by
  simp only [Option.eq_none_iff_forall_ne_some, ne_eq, unquote?_eq_some_iff]

/-- No two texts have the same quoted form. -/
theorem quoted_injective : Function.Injective quoted := fun _ _ h =>
  Option.some.inj ((unquote?_eq_some_iff.mpr rfl).symm.trans (unquote?_eq_some_iff.mpr h))

/-! ## 2. Two scans -/

/-- Whether quotation marks occur in pairs only, from the left. -/
def pairsOnly : List Char → Bool
  | [] => true
  | '"' :: '"' :: rest => pairsOnly rest
  | c :: rest => c != '"' && pairsOnly rest

/-- The text with each pair of quotation marks replaced by one, from the left. -/
def collapsed : List Char → List Char
  | [] => []
  | '"' :: '"' :: rest => '"' :: collapsed rest
  | c :: rest => c :: collapsed rest

/-- **Looking for a mark alone and replacing pairs** take the same pairs. -/
theorem undouble?_eq (cs : List Char) :
    undouble? cs = if pairsOnly cs then some (collapsed cs) else none := by
  induction cs using undouble?.induct with
  | case1 => rfl
  | case2 rest ih =>
    rw [undouble?, pairsOnly, collapsed, ih]
    split <;> rfl
  | case3 rest hsingle =>
    have hpairs : pairsOnly ('"' :: rest) = false := by
      rw [pairsOnly]
      · rfl
      · exact hsingle
    rw [undouble?_mark fun more heq => hsingle more rfl heq, hpairs]
    rfl
  | case4 c rest hpair hc ih =>
    rw [undouble?_other hc, pairsOnly, collapsed, ih, bne_iff_ne.mpr hc, Bool.true_and]
    · split <;> rfl
    · exact hpair
    · exact hpair

/-! ## 3. Line ends -/

def LineEnds (cs : List Char) : Prop := ∀ c ∈ cs, c = '\r' ∨ c = '\n'

/-- A text after whose last character there is no line end to be taken off. -/
def Trimmed (cs : List Char) : Prop := ∀ c ∈ cs.getLast?, c ≠ '\r' ∧ c ≠ '\n'

theorem isLineEnd_iff {c : Char} : isLineEnd c = true ↔ c = '\r' ∨ c = '\n' := by simp [isLineEnd]

theorem trimLineEnds_eq (cs : List Char) : trimLineEnds cs = cs.rdropWhile isLineEnd := rfl

/-- **Line ends after an answer** are taken off. -/
theorem trimLineEnds_append {body ends : List Char} (hbody : Trimmed body) (hends : LineEnds ends) :
    trimLineEnds (body ++ ends) = body := by
  have hall : ∀ c ∈ ends.reverse, isLineEnd c = true := fun c hc =>
    isLineEnd_iff.mpr (hends c (List.mem_reverse.mp hc))
  have hleft : body.rdropWhile isLineEnd = body := List.rdropWhile_eq_self_iff.mpr fun hne hlast =>
    not_or.mpr (hbody _ (List.getLast?_eq_getLast_of_ne_nil hne)) (isLineEnd_iff.mp hlast)
  rw [trimLineEnds, List.reverse_append, List.dropWhile_append_of_pos hall, ← List.rdropWhile,
    hleft]

/-- Every answer is a text without a line end at its end, and line ends. -/
theorem trimLineEnds_spec (cs : List Char) :
    Trimmed (trimLineEnds cs) ∧ ∃ ends, LineEnds ends ∧ cs = trimLineEnds cs ++ ends := by
  rw [trimLineEnds_eq]
  refine ⟨fun c hc => ?_, cs.rtakeWhile isLineEnd,
    fun c hc => isLineEnd_iff.mp (List.mem_rtakeWhile_imp hc),
    (List.rdropWhile_append_rtakeWhile).symm⟩
  obtain ⟨hne, rfl⟩ := List.mem_getLast?_eq_getLast hc
  exact not_or.mp (mt isLineEnd_iff.mpr (List.rdropWhile_last_not isLineEnd cs hne))

open Numeric

/-! ## 4. Decimal texts -/

/-- The decimal text of a whole number spells it. -/
theorem spellsInteger_toString (i : Int) : SpellsInteger (toString i).toList i := by
  have hdigits (n : Nat) : IsDigits (Nat.toDigits 10 n) :=
    ⟨Nat.toDigits_ne_nil, fun _ => Json.isDigit_of_mem_toDigits⟩
  cases i with
  | ofNat n =>
    have h := SpellsInteger.plain (hdigits n)
    rw [Json.digitsValue_toDigits] at h
    simpa [toString, Nat.repr, Int.repr] using h
  | negSucc n =>
    have h := SpellsInteger.minus (hdigits (n + 1))
    rw [Json.digitsValue_toDigits, show -((n + 1 : Nat) : Int) = .negSucc n from rfl] at h
    simpa [toString, Nat.repr, Int.repr] using h

/-- The last character of a whole number is a digit. -/
theorem trimmed_of_spellsInteger {cs : List Char} {i : Int} (h : SpellsInteger cs i) :
    Trimmed cs := by
  have hdigits {c : Char} {digits : List Char} (h : IsDigits digits) (hc : c ∈ digits.getLast?) :
      c ≠ '\r' ∧ c ≠ '\n' := by
    have hdigit := h.2 c (List.mem_of_getLast? hc)
    constructor <;> rintro rfl <;> exact absurd hdigit (by decide)
  intro c hc
  obtain h | h | h := h
  · exact hdigits h hc
  · exact hdigits h (by simpa [List.getLast?_cons, List.getLast?_eq_getLast_of_ne_nil h.1] using hc)
  · exact hdigits h (by simpa [List.getLast?_cons, List.getLast?_eq_getLast_of_ne_nil h.1] using hc)

theorem trimmed_quoted (cs : List Char) : Trimmed (quoted cs) := by
  intro c hc
  rw [quoted, ← List.cons_append, List.getLast?_concat] at hc
  obtain rfl := Option.some.inj hc
  decide

/-! ## 5. Answers -/

/-- **What an answer is read as**, its line ends taken off. -/
inductive ReadAs (body : List Char) : Value → Prop
  | nothing : body = [] → ReadAs body (.int 0)
  | unquoted {inner : List Char} : body = quoted inner → ReadAs body (.string (String.ofList inner))
  | integer {n : Int32} : SpellsInt32 body n → ReadAs body (.int n)
  | number {x : Binary32} : (∀ n, ¬SpellsInt32 body n) → readBinary? .single body = some x →
      ReadAs body (.float x)
  | text : body ≠ [] → (∀ inner, body ≠ quoted inner) → (∀ n, ¬SpellsInt32 body n) →
      ¬SpellsNumber body → ReadAs body (.string (String.ofList body))

section

variable {body : List Char}

theorem unquote?_of_spellsNumber (h : SpellsNumber body) : unquote? body = none := by
  rw [unquote?_eq_none_iff]
  rintro inner rfl
  exact not_spellsNumber_mark _ h

theorem ne_nil_of_spellsNumber (h : SpellsNumber body) : body ≠ [] := by
  rintro rfl
  cases (isSome_readBinary?_iff (f := .single)).mpr h

/-- **Every answer is read as what it spells**, and as nothing else. -/
theorem answerValue_eq_iff {answer : String} {v : Value} (h : trimLineEnds answer.toList = body) :
    answerValue answer = v ↔ ReadAs body v := by
  unfold answerValue
  dsimp only
  rw [h]
  constructor
  · rintro rfl
    split
    · next hempty => exact .nothing (List.isEmpty_iff.mp hempty)
    · next hempty =>
      split
      · next inner hquoted => exact .unquoted (unquote?_eq_some_iff.mp hquoted)
      · next hquoted =>
        split
        · next n hn => exact .integer (readInt32?_eq_some_iff.mp hn)
        · next hn =>
          split
          · next x hx => exact .number (readInt32?_eq_none_iff.mp hn) hx
          · next hx =>
            exact .text (mt List.isEmpty_iff.mpr hempty) (unquote?_eq_none_iff.mp hquoted)
              (readInt32?_eq_none_iff.mp hn) (readBinary?_eq_none_iff.mp hx)
  · intro hread
    cases hread with
    | nothing hbody => rw [if_pos (List.isEmpty_iff.mpr hbody)]
    | unquoted hbody =>
      rw [if_neg (by simp [hbody, quoted]), unquote?_eq_some_iff.mpr hbody]
    | integer hn =>
      have hs := SpellsInteger.spellsNumber hn
      rw [if_neg (mt List.isEmpty_iff.mp (ne_nil_of_spellsNumber hs)), unquote?_of_spellsNumber hs,
        readInt32?_eq_some_iff.mpr hn]
    | number hno hx =>
      have hs := isSome_readBinary?_iff.mp (Option.isSome_of_mem hx)
      rw [if_neg (mt List.isEmpty_iff.mp (ne_nil_of_spellsNumber hs)), unquote?_of_spellsNumber hs,
        readInt32?_eq_none_iff.mpr hno, hx]
    | text hne hquoted hno hs =>
      rw [if_neg (mt List.isEmpty_iff.mp hne), unquote?_eq_none_iff.mpr hquoted,
        readInt32?_eq_none_iff.mpr hno, readBinary?_eq_none_iff.mpr hs]

end

/-! ## 6. The classes of answers -/

theorem toList_append_trimmed {body ends : String} (hbody : Trimmed body.toList)
    (hends : LineEnds ends.toList) : trimLineEnds (body ++ ends).toList = body.toList := by
  rw [String.toList_append, trimLineEnds_append hbody hends]

/-- **Texts and numbers come back.** A quoted text is read as the text and the decimal text of a
    whole number as the number, whatever line ends follow. Quotes are taken off the quoted form of
    one text only. An answer that is neither that nor spells a number is a text as it stands. -/
theorem answers_classified :
    (∀ s ends : String, LineEnds ends.toList →
      answerValue (String.ofList (quoted s.toList) ++ ends) = .string s)
    ∧ (∀ (n : Int32) (ends : String), LineEnds ends.toList →
      answerValue (toString n ++ ends) = .int n)
    ∧ (∀ body inner : List Char, unquote? body = some inner ↔ body = quoted inner)
    ∧ Function.Injective quoted
    ∧ (∀ body ends : String, Trimmed body.toList → LineEnds ends.toList → body ≠ "" →
      (∀ inner, body.toList ≠ quoted inner) → (∀ n, ¬SpellsInt32 body.toList n) →
      ¬SpellsNumber body.toList → answerValue (body ++ ends) = .string body)
    ∧ ∀ answer : String, ∃ body ends : String, answer = body ++ ends ∧ Trimmed body.toList
      ∧ LineEnds ends.toList ∧ ∀ v, answerValue answer = v ↔ ReadAs body.toList v := by
  refine ⟨fun s ends hends => ?_, fun n ends hends => ?_, fun _ _ => unquote?_eq_some_iff,
    quoted_injective, fun body ends hbody hends hne hquoted hno hs => ?_, fun answer => ?_⟩
  · have hbody : Trimmed (String.ofList (quoted s.toList)).toList := by
      rw [String.toList_ofList]
      exact trimmed_quoted s.toList
    rw [answerValue_eq_iff (toList_append_trimmed hbody hends), String.toList_ofList]
    simpa using @ReadAs.unquoted _ s.toList rfl
  · have hspells : SpellsInteger (toString n).toList n.toInt := spellsInteger_toString n.toInt
    exact (answerValue_eq_iff
      (toList_append_trimmed (trimmed_of_spellsInteger hspells) hends)).mpr (.integer hspells)
  · rw [answerValue_eq_iff (toList_append_trimmed hbody hends)]
    simpa using ReadAs.text (by simpa using hne) hquoted hno hs
  · obtain ⟨htrimmed, ends, hends, heq⟩ := trimLineEnds_spec answer.toList
    refine ⟨String.ofList (trimLineEnds answer.toList), String.ofList ends, ?_, ?_, ?_, fun v => ?_⟩
    · rw [← String.ofList_append, ← heq, String.ofList_toList]
    · rwa [String.toList_ofList]
    · rwa [String.toList_ofList]
    · rw [String.toList_ofList, answerValue_eq_iff rfl]

/-- Marks in a row are pairs from the left; one that is left over keeps the answer as it stands. -/
example : answerValue "\"\"\"\"\r\n" = .string "\"" ∧ answerValue "\"\"\"\n" = .string "\"\"\""
    ∧ answerValue "-007\n\r\n" = .int (-7) := by decide

end InstrumentFlow.Scpi
