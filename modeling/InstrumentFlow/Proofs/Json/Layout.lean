import InstrumentFlow.Json.Reader
import InstrumentFlow.Proofs.Json.Grammar

/-!
# JSON trees come back from their text

* `hexValue?_hexDigit`, `readUnit?_control` -- the escape of a control in four digits;
* `readChars?_escapeChar` -- one character, however it is escaped;
* `readString?_stringText` -- a whole string, with anything behind it;
* `Spelled` -- trees whose numbers are spelled as JSON wants it and whose strings are texts;
* `readValue?_renderAt`, `readItems?_rendered`, `readMembers?_rendered` -- each reader takes exactly
  what the writer wrote, at any level and with anything behind it that ends a number;
* `parse?_render` -- the text of a tree has this tree.
-/

namespace InstrumentFlow.Json

/-! ## 1. Strings -/

theorem hexValue?_hexDigit : ∀ n < 16, hexValue? (hexDigit n) = some n := by decide

/-- The escape of a control stands for its code point. -/
theorem readUnit?_control {n : Nat} (small : n < 0x20) (rest : List Char) :
    readUnit? ('0' :: '0' :: hexDigit (n / 16) :: hexDigit (n % 16) :: rest) = some (n, rest) := by
  have zero : hexValue? '0' = some 0 := by decide
  simp only [readUnit?, zero, hexValue?_hexDigit (n / 16) (by omega),
    hexValue?_hexDigit (n % 16) (by omega), Option.bind_eq_bind, Option.bind_some, Option.some.injEq,
    Prod.mk.injEq, and_true]
  omega

/-- **One character of a string comes back**, whichever way it is written. -/
theorem readChars?_escapeChar (more : Nat) (text : List Char) (c : Char) (rest : List Char) :
    readChars? (more + 1) (some text) (escapeChar c ++ rest)
      = readChars? more (some (c :: text)) rest := by
  by_cases quote : c = '"'
  · subst quote; simp [escapeChar, readChars?, simpleEscape?]
  by_cases backslash : c = '\\'
  · subst backslash; simp [escapeChar, readChars?, simpleEscape?]
  by_cases back : c = '\x08'
  · subst back; simp [escapeChar, readChars?, simpleEscape?]
  by_cases feed : c = '\x0c'
  · subst feed; simp [escapeChar, readChars?, simpleEscape?]
  by_cases line : c = '\n'
  · subst line; simp [escapeChar, readChars?, simpleEscape?]
  by_cases carriage : c = '\r'
  · subst carriage; simp [escapeChar, readChars?, simpleEscape?]
  by_cases tab : c = '\t'
  · subst tab; simp [escapeChar, readChars?, simpleEscape?]
  by_cases control : c.toNat < 0x20
  · -- No control is half of a surrogate pair.
    have plain : ¬ (0xD800 ≤ c.toNat ∧ c.toNat ≤ 0xDFFF) := by omega
    simp only [escapeChar, quote, backslash, back, feed, line, carriage, tab, control, if_true,
      if_false, List.cons_append, List.nil_append, readChars?, readUnit?_control control, plain,
      Option.map_some, Char.ofNat_toNat]
    simp
  · simp [escapeChar, quote, backslash, back, feed, line, carriage, tab, control, readChars?]

theorem readChars?_flatMap (s : List Char) (text rest : List Char) {calls : Nat}
    (enough : s.length < calls) :
    readChars? calls (some text) (s.flatMap escapeChar ++ '"' :: rest)
      = some (some (String.ofList (text.reverse ++ s)), rest) := by
  induction s generalizing text calls with
  | nil =>
    obtain ⟨more, rfl⟩ := Nat.exists_eq_add_of_lt enough
    simp [readChars?]
  | cons c s ih =>
    obtain ⟨more, rfl⟩ := Nat.exists_eq_add_of_lt enough
    rw [List.flatMap_cons, List.append_assoc, readChars?_escapeChar, ih _ (by simp; omega)]
    simp

theorem length_le_flatMap_escapeChar (s : List Char) :
    s.length ≤ (s.flatMap escapeChar).length := by
  induction s with
  | nil => simp
  | cons c s ih =>
    have one : 1 ≤ (escapeChar c).length := by grind [escapeChar]
    simp only [List.flatMap_cons, List.length_cons, List.length_append]
    omega

/-- **A string comes back** with whatever stands behind its closing quotation mark. -/
theorem readString?_stringText (s : String) (rest : List Char) :
    readString? (s.toList.flatMap escapeChar ++ '"' :: rest) = some (some s, rest) := by
  have enough := length_le_flatMap_escapeChar s.toList
  rw [readString?, readChars?_flatMap _ _ _ (by simp only [List.length_append]; omega)]
  simp

/-! ## 2. Trees with a text -/

mutual

/-- **All numbers are numbers, all strings are texts.** -/
def Spelled : Json → Prop
  | null => True
  | boolean _ => True
  | number spelling => IsNumber spelling
  | string s => s.isSome
  | array items => SpelledItems items
  | object members => SpelledMembers members

def SpelledItems : List Json → Prop
  | [] => True
  | j :: js => Spelled j ∧ SpelledItems js

def SpelledMembers : List (Option String × Json) → Prop
  | [] => True
  | (key, j) :: members => key.isSome ∧ Spelled j ∧ SpelledMembers members

end

theorem spelledItems_iff {items : List Json} : SpelledItems items ↔ ∀ j ∈ items, Spelled j := by
  induction items with
  | nil => simp [SpelledItems]
  | cons j js ih => simp [SpelledItems, ih]

/-- The members of a record are spelled when their contents are. -/
theorem spelled_ofMembers {members : List (String × Json)} :
    Spelled (ofMembers members) ↔ ∀ m ∈ members, Spelled m.2 := by
  rw [ofMembers, Spelled]
  induction members with
  | nil => simp [SpelledMembers]
  | cons m members ih => simp [SpelledMembers, ih]

/-! ## 3. Blanks -/

theorem skipBlanks_append {blanks cs : List Char} (all : ∀ c ∈ blanks, isJsonBlank c = true) :
    skipBlanks (blanks ++ cs) = skipBlanks cs :=
  List.dropWhile_append_of_pos all

theorem isJsonBlank_newLine (level : Nat) : ∀ c ∈ newLine level, isJsonBlank c = true := by
  intro c at_
  rw [newLine, List.mem_cons] at at_
  rcases at_ with rfl | at_
  · decide
  · rw [List.eq_of_mem_replicate at_]
    decide

@[simp] theorem skipBlanks_newLine (level : Nat) (cs : List Char) :
    skipBlanks (newLine level ++ cs) = skipBlanks cs :=
  skipBlanks_append (isJsonBlank_newLine level)

theorem skipBlanks_cons {c : Char} (dark : isJsonBlank c = false) (cs : List Char) :
    skipBlanks (c :: cs) = c :: cs := by
  simp [skipBlanks, dark]

/-- Blanks in front of a value change nothing. -/
theorem readValue?_append {blanks : List Char} (all : ∀ c ∈ blanks, isJsonBlank c = true)
    (calls : Nat) (cs : List Char) :
    readValue? calls (blanks ++ cs) = readValue? calls cs := by
  cases calls with
  | zero => simp only [readValue?]
  | succ calls => simp only [readValue?, skipBlanks_append all]

theorem readValue?_newLine (calls level : Nat) (cs : List Char) :
    readValue? calls (newLine level ++ cs) = readValue? calls cs :=
  readValue?_append (isJsonBlank_newLine level) calls cs

theorem readValue?_blank (calls : Nat) (cs : List Char) :
    readValue? calls (' ' :: cs) = readValue? calls cs :=
  have all (c : Char) (at_ : c ∈ [' ']) : isJsonBlank c = true := List.mem_singleton.mp at_ ▸ rfl
  readValue?_append all calls cs

theorem ends_newLine (level : Nat) (cs : List Char) : Ends (newLine level ++ cs) := by
  rintro c ⟨⟩
  decide

theorem ends_comma (cs : List Char) : Ends (',' :: cs) := by
  rintro c ⟨⟩
  decide

theorem ends_nil : Ends [] := by
  rintro c ⟨⟩

/-! ## 4. What a value begins with -/

theorem not_blank_of_digit {c : Char} (digit : isJsonDigit c = true ∨ c = '-') :
    isJsonBlank c = false ∧ c ≠ '[' ∧ c ≠ ']' ∧ c ≠ openBrace ∧ c ≠ '"' ∧ c ≠ 'n' ∧ c ≠ 't'
      ∧ c ≠ 'f' := by
  refine ⟨Bool.eq_false_iff.mpr fun blank => ?_, ?_⟩
  · simp only [isJsonBlank, Bool.or_eq_true, beq_iff_eq] at blank
    rcases blank with ((rfl | rfl) | rfl) | rfl <;> revert digit <;> decide
  · refine ⟨?_, ?_, ?_, ?_, ?_, ?_, ?_⟩ <;> rintro rfl <;> revert digit <;> decide

/-- A value begins with a mark that is neither a blank nor the end of a list. -/
theorem renderAt_exists_cons (level : Nat) {j : Json} (spelled : Spelled j) :
    ∃ c more, renderAt level j = c :: more ∧ isJsonBlank c = false ∧ c ≠ ']' := by
  cases j with
  | null => exact ⟨'n', _, rfl, by decide, by decide⟩
  | boolean b => cases b <;> exact ⟨_, _, rfl, by decide, by decide⟩
  | number spelling =>
    obtain ⟨c, more, rfl, digit⟩ := IsNumber.exists_cons spelled
    have ⟨dark, _, noEnd, _⟩ := not_blank_of_digit digit
    exact ⟨c, more, rfl, dark, noEnd⟩
  | string s => exact ⟨'"', _, rfl, by decide, by decide⟩
  | array items =>
    rw [renderAt, bracketed]
    split <;> exact ⟨'[', _, rfl, by decide, by decide⟩
  | object members =>
    rw [renderAt, bracketed]
    split <;> exact ⟨Char.ofNat 0x7B, _, rfl, by decide, by decide⟩

/-! ## 5. Parts between brackets -/

/-- The parts of a bracket, each on its line. -/
def lines (level : Nat) (parts : List (List Char)) : List Char :=
  commaSeparated (parts.map (newLine level ++ ·))

theorem lines_singleton (level : Nat) (p : List Char) : lines level [p] = newLine level ++ p := rfl

theorem lines_cons_cons (level : Nat) (p q : List Char) (ps : List (List Char)) :
    lines level (p :: q :: ps) = newLine level ++ (p ++ ',' :: lines level (q :: ps)) := by
  simp [lines, commaSeparated]

theorem bracketed_nil (opening closing : Char) (level : Nat) :
    bracketed opening closing level [] = [opening, closing] := rfl

theorem bracketed_cons (opening closing : Char) (level : Nat) (p : List Char)
    (ps : List (List Char)) :
    bracketed opening closing level (p :: ps)
      = opening :: (lines (level + 1) (p :: ps) ++ (newLine level ++ [closing])) := by
  simp [bracketed, lines]

theorem length_lt_lines (level : Nat) (p : List Char) (ps : List (List Char)) :
    p.length < (lines level (p :: ps)).length := by
  cases ps with
  | nil =>
    rw [lines_singleton, List.length_append, newLine, List.length_cons]
    omega
  | cons q ps =>
    rw [lines_cons_cons, List.length_append, List.length_append, newLine, List.length_cons]
    omega

theorem length_lines_lt (level : Nat) (p q : List Char) (ps : List (List Char)) :
    (lines level (q :: ps)).length + 1 < (lines level (p :: q :: ps)).length := by
  simp [lines_cons_cons, newLine]
  omega

theorem renderAt_object (level : Nat) (members : List (Option String × Json)) :
    renderAt level (object members)
      = bracketed openBrace closeBrace level (renderMembers (level + 1) members) := by
  rw [renderAt]
  rfl

theorem renderMembers_cons (level : Nat) (key : String) (j : Json)
    (members : List (Option String × Json)) :
    renderMembers level ((some key, j) :: members)
      = ('"' :: (key.toList.flatMap escapeChar ++ '"' :: ':' :: ' ' :: renderAt level j))
        :: renderMembers level members := by
  simp [renderMembers, stringText]

/-- The first line begins with its part. -/
theorem skipBlanks_lines {c : Char} (dark : isJsonBlank c = false) (level : Nat) (p : List Char)
    (ps : List (List Char)) (tail : List Char) :
    ∃ text, skipBlanks (lines level ((c :: p) :: ps) ++ tail) = c :: text := by
  cases ps with
  | nil =>
    rw [lines_singleton, List.append_assoc, skipBlanks_newLine]
    exact ⟨_, skipBlanks_cons dark _⟩
  | cons q ps =>
    rw [lines_cons_cons, List.append_assoc, skipBlanks_newLine]
    exact ⟨_, skipBlanks_cons dark _⟩

/-! ## 6. Every reader takes what was written -/

mutual

/-- **A value comes back.** As many calls as the value has characters are enough. -/
theorem readValue?_renderAt (j : Json) (spelled : Spelled j) (level : Nat) {rest : List Char}
    (ends : Ends rest) (calls : Nat) (enough : (renderAt level j).length < calls) :
    readValue? calls (renderAt level j ++ rest) = some (j, rest) := by
  obtain ⟨calls, rfl⟩ := Nat.exists_eq_add_one_of_ne_zero (by omega : calls ≠ 0)
  match j with
  | null => simp [renderAt, readValue?, skipBlanks, isJsonBlank, openBrace, afterWord?]
  | boolean b =>
    cases b <;> simp [renderAt, readValue?, skipBlanks, isJsonBlank, openBrace, afterWord?]
  | number spelling =>
    have read := readNumber?_append spelled ends
    obtain ⟨c, more, rfl, digit⟩ := IsNumber.exists_cons spelled
    have ⟨dark, noList, _, noObject, noText, noNull, noTrue, noFalse⟩ := not_blank_of_digit digit
    rw [List.cons_append] at read
    simp [renderAt, readValue?, skipBlanks_cons dark, noList, noObject, noText, noNull, noTrue,
      noFalse, read]
  | string none => simp [Spelled] at spelled
  | string (some s) =>
    have read := readString?_stringText s rest
    simp [renderAt, stringText, readValue?, skipBlanks, isJsonBlank, openBrace, read]
  | array [] =>
    simp [renderAt, renderItems, bracketed_nil, readValue?, skipBlanks, isJsonBlank]
  | array (j :: js) =>
    obtain ⟨c, more, first, dark, noEnd⟩ := renderAt_exists_cons (level + 1) spelled.1
    rw [renderAt, renderItems, bracketed_cons] at enough ⊢
    have read := readItems?_rendered (j :: js) spelled (by simp) (level + 1) level rest
      calls (by rw [renderItems]; simp at enough; omega)
    obtain ⟨text, front⟩ := skipBlanks_lines dark (level + 1) more (renderItems (level + 1) js)
      (newLine level ++ ']' :: rest)
    rw [renderItems] at read
    rw [first] at read ⊢
    simp [readValue?, skipBlanks_cons, isJsonBlank, front, noEnd, read]
  | object [] =>
    simp [renderAt, renderMembers, bracketed_nil, readValue?, skipBlanks, isJsonBlank, openBrace,
      closeBrace]
  | object ((none, _) :: _) => simp [Spelled, SpelledMembers] at spelled
  | object ((some key, j) :: members) =>
    rw [renderAt_object, renderMembers_cons, bracketed_cons] at enough ⊢
    have read := readMembers?_rendered ((some key, j) :: members) spelled (by simp) (level + 1) level
      rest calls (by
        rw [renderMembers_cons]
        simp only [List.length_cons, List.length_append] at enough ⊢
        omega)
    rw [renderMembers_cons] at read
    obtain ⟨text, front⟩ := skipBlanks_lines (c := '"') (by decide) (level + 1)
      (key.toList.flatMap escapeChar ++ '"' :: ':' :: ' ' :: renderAt (level + 1) j)
      (renderMembers (level + 1) members) (newLine level ++ closeBrace :: rest)
    have noEnd : '"' ≠ closeBrace := by decide
    have noList : openBrace ≠ '[' := by decide
    simp only [List.cons_append, List.append_assoc, List.nil_append] at read front ⊢
    simp only [readValue?, skipBlanks_cons (c := openBrace) (by decide), noList, if_false, if_true,
      front, noEnd, read, Option.map_some]

/-- Elements come back up to the closing bracket. -/
theorem readItems?_rendered (items : List Json) (spelled : SpelledItems items) (some_ : items ≠ [])
    (level outer : Nat) (rest : List Char) (calls : Nat)
    (enough : (lines level (renderItems level items)).length < calls) :
    readItems? calls (lines level (renderItems level items) ++ (newLine outer ++ ']' :: rest))
      = some (items, rest) := by
  obtain ⟨calls, rfl⟩ := Nat.exists_eq_add_one_of_ne_zero (by omega : calls ≠ 0)
  match items with
  | [j] =>
    have longer := length_lt_lines level (renderAt level j) []
    have read := readValue?_renderAt j spelled.1 level (ends_newLine outer (']' :: rest))
      calls (by simp only [renderItems] at enough; omega)
    simp only [renderItems, lines_singleton, List.append_assoc, readItems?, readValue?_newLine, read,
      skipBlanks_newLine]
    rfl
  | j :: k :: js =>
    have longer := length_lt_lines level (renderAt level j) (renderItems level (k :: js))
    have read := readValue?_renderAt j spelled.1 level
      (ends_comma (lines level (renderItems level (k :: js)) ++ (newLine outer ++ ']' :: rest)))
      calls (by rw [renderItems] at enough; omega)
    have shorter := length_lines_lt level (renderAt level j) (renderAt level k)
      (renderItems level js)
    have readRest := readItems?_rendered (k :: js) spelled.2 (by simp) level outer rest
      calls (by simp only [renderItems] at enough ⊢; omega)
    simp only [renderItems, lines_cons_cons] at read readRest ⊢
    simp only [List.append_assoc, List.cons_append, readItems?, readValue?_newLine, read,
      skipBlanks_cons (c := ',') (by decide), readRest, Option.map_some]

/-- Members come back up to the closing brace. -/
theorem readMembers?_rendered (members : List (Option String × Json))
    (spelled : SpelledMembers members) (some_ : members ≠ []) (level outer : Nat)
    (rest : List Char) (calls : Nat)
    (enough : (lines level (renderMembers level members)).length < calls) :
    readMembers? calls
        (lines level (renderMembers level members) ++ (newLine outer ++ closeBrace :: rest))
      = some (members, rest) := by
  obtain ⟨calls, rfl⟩ := Nat.exists_eq_add_one_of_ne_zero (by omega : calls ≠ 0)
  match members with
  | (none, _) :: _ => simp [SpelledMembers] at spelled
  | [(some key, j)] =>
    rw [renderMembers_cons, renderMembers] at enough ⊢
    have longer := length_lt_lines level
      ('"' :: (key.toList.flatMap escapeChar ++ '"' :: ':' :: ' ' :: renderAt level j)) []
    have readKey := readString?_stringText key
      (':' :: ' ' :: (renderAt level j ++ (newLine outer ++ closeBrace :: rest)))
    have read := readValue?_renderAt j spelled.2.1 level (ends_newLine outer (closeBrace :: rest))
      calls (by simp only [List.length_cons, List.length_append] at longer; omega)
    have noMore : closeBrace ≠ ',' := by decide
    simp only [lines_singleton, List.cons_append, List.append_assoc, readMembers?,
      skipBlanks_newLine, skipBlanks_cons (c := '"') (by decide), readKey,
      skipBlanks_cons (c := ':') (by decide), readValue?_blank, read,
      skipBlanks_cons (c := closeBrace) (by decide), noMore, if_false, if_true]
  | (some key, j) :: (key', k) :: members =>
    have readKey := readString?_stringText key
      (':' :: ' ' :: (renderAt level j
        ++ ',' :: (lines level (renderMembers level ((key', k) :: members))
          ++ (newLine outer ++ closeBrace :: rest))))
    have longer := length_lt_lines level
      ('"' :: (key.toList.flatMap escapeChar ++ '"' :: ':' :: ' ' :: renderAt level j))
      (renderMembers level ((key', k) :: members))
    rw [renderMembers_cons] at enough ⊢
    have read := readValue?_renderAt j spelled.2.1 level
      (ends_comma (lines level (renderMembers level ((key', k) :: members))
        ++ (newLine outer ++ closeBrace :: rest)))
      calls (by simp only [List.length_cons, List.length_append] at longer; omega)
    have readRest := readMembers?_rendered ((key', k) :: members) spelled.2.2 (by simp) level outer
      rest calls (by
        rw [renderMembers] at enough ⊢
        have shorter := length_lines_lt level
          ('"' :: (key.toList.flatMap escapeChar ++ '"' :: ':' :: ' ' :: renderAt level j))
          (stringText (key'.getD "") ++ [':', ' '] ++ renderAt level k) (renderMembers level members)
        omega)
    rw [renderMembers] at read readKey readRest ⊢
    simp only [lines_cons_cons, List.cons_append, List.append_assoc, readMembers?,
      skipBlanks_newLine, skipBlanks_cons (c := '"') (by decide)] at readKey read readRest ⊢
    simp only [readKey, skipBlanks_cons (c := ':') (by decide), readValue?_blank, read,
      skipBlanks_cons (c := ',') (by decide), if_true, readRest, Option.map_some]

end

/-- **The text of a tree has this tree.** -/
theorem parse?_render {j : Json} (spelled : Spelled j) : parse? j.render = some j := by
  have read := readValue?_renderAt j spelled 0 ends_nil _ (Nat.lt_succ_self _)
  rw [List.append_nil] at read
  simp [parse?, render, read, skipBlanks]

end InstrumentFlow.Json
