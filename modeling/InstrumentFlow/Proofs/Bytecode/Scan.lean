import InstrumentFlow.Bytecode.Listing
import Mathlib.Data.List.Basic

/-!
# One stream, several readers and a writer

A stream is read by whoever decodes it, measures it or lists it, and each reader has a loop of its
own. What they have in common is the list of words that they come past. A stream that was decoded
can be written again. That gives the bytes that were read, but for the bits that no instruction has
a use for.

* `scan` -- the instructions up to and with the first end, or as far as there are words;
* `decode_eq`, `streamLength_eq`, `streamLines_eq` -- what each reader makes of it;
* `scan_take_append` -- what follows the end is not read;
* `textLines`, `textLines_joinLines` -- the lines of a text are the lines it was joined from;
* `textLines_disassemble` -- the lines of a listing;
* `wordOfBytes_wordBytes`, `wordBytes_wordOfBytes` -- a word and its two bytes;
* `readsOperand`, `cleared` -- the instructions that read their operand, and a stream in which the
  operand bits of the others are zero;
* `word_ofWord`, `ofWord_word_ofWord` -- a word that is read and written again;
* `instructionBytes_scan`, `scan_instructionBytes` -- the same of a stream;
* `stop_mem_scan_encode` -- a stream that was written has an end.
-/

namespace InstrumentFlow.Bytecode

open Instruction

/-! ## 1. The words of a stream -/

/-- **The instructions that a reader comes past**: up to and with the first end, or as far as both
    bytes of a word are there. -/
def scan : List UInt8 → List Instruction
  | low :: high :: rest =>
    let i := ofWord (wordOfBytes low high)
    if i = stop then [i] else i :: scan rest
  | _ => []

/-- The end is the last one. -/
theorem exists_scan_eq : ∀ {bytes : List UInt8}, stop ∈ scan bytes →
    ∃ is, stop ∉ is ∧ scan bytes = is ++ [stop]
  | low :: high :: rest, h => by
    unfold scan at h ⊢
    dsimp only at h ⊢
    split at h
    · next hstop => exact ⟨[], List.not_mem_nil, by rw [if_pos hstop, hstop, List.nil_append]⟩
    · next hstop =>
      obtain ⟨is, hno, heq⟩ := exists_scan_eq ((List.mem_cons.mp h).resolve_left (Ne.symm hstop))
      refine ⟨ofWord (wordOfBytes low high) :: is, ?_, by rw [if_neg hstop, heq, List.cons_append]⟩
      simpa [Ne.symm hstop] using hno
  | [], h | [_], h => nomatch h

theorem length_scan_le : ∀ bytes : List UInt8, 2 * (scan bytes).length ≤ bytes.length
  | low :: high :: rest => by
    have ih := length_scan_le rest
    unfold scan
    dsimp only
    split <;> simp only [List.length_cons, List.length_nil] <;> omega
  | [] | [_] => by simp [scan]

/-- **What follows the end is not read.** -/
theorem scan_take_append (more : List UInt8) : ∀ {bytes : List UInt8}, stop ∈ scan bytes →
    scan (bytes.take (2 * (scan bytes).length) ++ more) = scan bytes
  | low :: high :: rest, h => by
    unfold scan at h
    rw [scan]
    dsimp only at h ⊢
    split at h
    · next hstop => simp [hstop, scan]
    · next hstop =>
      have ih := scan_take_append more ((List.mem_cons.mp h).resolve_left (Ne.symm hstop))
      simp only [if_neg hstop, List.length_cons, Nat.mul_succ, List.take_succ_cons,
        List.cons_append]
      rw [scan]
      simp only [if_neg hstop, ih]
  | [], h | [_], h => nomatch h

/-! ## 2. Decoding and measuring -/

theorem decode_eq : ∀ bytes : List UInt8,
    decode bytes = if stop ∈ scan bytes then .ok (scan bytes) else .error .unterminated
  | low :: high :: rest => by
    unfold decode scan
    dsimp only
    split
    · next hstop => simp [hstop]
    · next hstop =>
      rw [decode_eq rest]
      by_cases hrest : stop ∈ scan rest <;> simp [hrest, Ne.symm hstop, Except.map]
  | [] | [_] => rfl

theorem streamLength_eq : ∀ bytes : List UInt8,
    streamLength bytes = if stop ∈ scan bytes then 2 * (scan bytes).length else bytes.length
  | low :: high :: rest => by
    unfold streamLength scan
    dsimp only
    split
    · next hstop => simp [hstop]
    · next hstop =>
      rw [streamLength_eq rest]
      by_cases hrest : stop ∈ scan rest <;> simp [hrest, Ne.symm hstop] <;> omega
  | [] | [_] => rfl

/-! ## 3. Listing -/

/-- The line of an instruction. -/
def instructionLine (indent : String) (i : Instruction) (number : Nat) : String :=
  numberedLine indent number (instructionText i)

/-- The line that stands where a stream breaks off. -/
def breakLine (indent : String) (number : Nat) : String :=
  numberedLine indent number "<unterminated>"

theorem streamLines_eq (indent : String) : ∀ (bytes : List UInt8) (number : Nat),
    streamLines indent number bytes
      = ((scan bytes).zipIdx number).map (fun p => instructionLine indent p.1 p.2)
        ++ if stop ∈ scan bytes then [] else [breakLine indent (number + (scan bytes).length)]
  | low :: high :: rest, number => by
    unfold streamLines scan
    dsimp only
    split
    · next hstop => simp [hstop, instructionLine]
    · next hstop =>
      have hnumber : number + ((scan rest).length + 1) = number + 1 + (scan rest).length := by omega
      rw [streamLines_eq indent rest (number + 1)]
      simp only [List.zipIdx_cons, List.map_cons, List.cons_append, List.mem_cons,
        Ne.symm hstop, false_or, List.length_cons, hnumber, instructionLine]
  | [], _ | [_], _ => rfl

/-- **The lines of a text.** A line end after the last line begins no further one. -/
def textLines (text : String) : List String :=
  let parts := text.toList.splitOn '\n'
  (if parts.getLast? = some [] then parts.dropLast else parts).map String.ofList

theorem splitOn_joinLines : ∀ lines : List String, (∀ l ∈ lines, '\n' ∉ l.toList) →
    (joinLines lines).toList.splitOn '\n' = lines.map String.toList ++ [[]]
  | [], _ => rfl
  | l :: lines, h => by
    have ih := splitOn_joinLines lines fun l hl => h l (List.mem_cons_of_mem _ hl)
    have htext : (joinLines (l :: lines)).toList = l.toList ++ '\n' :: (joinLines lines).toList := by
      simp [joinLines, String.join_cons]
    rw [htext, List.splitOn_append_cons_self_of_not_mem (h l List.mem_cons_self), ih]
    rfl

/-- The lines of a text are the lines from which it was joined. -/
theorem textLines_joinLines {lines : List String} (h : ∀ l ∈ lines, '\n' ∉ l.toList) :
    textLines (joinLines lines) = lines := by
  unfold textLines
  rw [splitOn_joinLines lines h]
  simp [Function.comp_def]

/-! ## 4. The lines of a listing -/

/-- A text without a line end and without the mark of a stream that breaks off. -/
def Clear (s : String) : Prop := ∀ c ∈ s.toList, c ≠ '\n' ∧ c ≠ '<'

instance (s : String) : Decidable (Clear s) :=
  decidable_of_iff (s.toList.all fun c => c != '\n' && c != '<') (by simp [Clear])

theorem Clear.append {s t : String} (hs : Clear s) (ht : Clear t) : Clear (s ++ t) := by
  intro c hc
  rw [String.toList_append, List.mem_append] at hc
  exact hc.elim (hs c) (ht c)

theorem ne_of_mem_toDigits {n : Nat} {c : Char} (hc : c ∈ Nat.toDigits 10 n) :
    c ≠ '\n' ∧ c ≠ '<' := by
  have hdigit := Nat.isDigit_of_mem_toDigits (by decide) (by decide) hc
  constructor <;> rintro rfl <;> exact absurd hdigit (by decide)

theorem clear_replicate {n : Nat} {c : Char} (hc : c ≠ '\n' ∧ c ≠ '<') :
    Clear (String.ofList (List.replicate n c)) := by
  intro d hd
  rw [String.toList_ofList] at hd
  rwa [List.eq_of_mem_replicate hd]

theorem clear_operand (index : UInt16) : Clear (toString index) := by
  intro c hc
  exact ne_of_mem_toDigits (n := index.toNat) (by simpa [toString, Nat.repr] using hc)

theorem clear_padNumber (width n : Nat) : Clear (padNumber width n) := by
  intro c hc
  rw [padNumber, String.toList_ofList, List.mem_append] at hc
  obtain hc | hc := hc
  · rw [List.eq_of_mem_replicate hc]
    decide
  · exact ne_of_mem_toDigits hc

theorem clear_withOperand {word operand : String} (hw : Clear word) (ho : Clear operand) :
    Clear (withOperand word operand) :=
  ((hw.append (clear_replicate (by decide))).append (by decide)).append ho

theorem clear_instructionText (i : Instruction) : Clear (instructionText i) := by
  have hindex (index : UInt16) : Clear s!"#{index}" := .append (by decide) (clear_operand index)
  cases i with
  | pushConstant index | pushInput index | pushLocal index | pushGlobal index | pushOutput index =>
    exact clear_withOperand (by decide) (hindex index)
  | arrayElement | stop => decide
  | operation index =>
    unfold instructionText
    dsimp only
    split
    · next op _ => exact clear_withOperand (by decide) (by cases op <;> decide)
    · exact clear_withOperand (by decide) (.append (by decide) (clear_operand index))

theorem clear_instructionLine (i : Instruction) (number : Nat) :
    Clear (instructionLine "" i number) :=
  ((Clear.append (by decide) (clear_padNumber 4 number)).append (by decide)).append
    (clear_instructionText i)

/-- The line of an instruction never reads like that of a stream that breaks off. -/
theorem instructionLine_ne_breakLine (i : Instruction) (number n : Nat) :
    instructionLine "" i number ≠ breakLine "" n := by
  intro h
  have hmark : '<' ∈ (breakLine "" n).toList := by
    simp [breakLine, numberedLine, String.toList_append]
  exact (clear_instructionLine i number '<' (h ▸ hmark)).2 rfl

/-- **The lines of a listing**: one for each instruction, numbered from 0, and one more where the
    stream breaks off. -/
theorem textLines_disassemble (bytes : List UInt8) :
    textLines (disassemble bytes)
      = (scan bytes).zipIdx.map (fun p => instructionLine "" p.1 p.2)
        ++ if stop ∈ scan bytes then [] else [breakLine "" (scan bytes).length] := by
  unfold disassemble
  have hlines := streamLines_eq "" bytes 0
  rw [Nat.zero_add] at hlines
  rw [textLines_joinLines, hlines]
  intro l hl hbreak
  rw [hlines, List.mem_append] at hl
  obtain hl | hl := hl
  · obtain ⟨p, -, rfl⟩ := List.mem_map.mp hl
    exact (clear_instructionLine p.1 p.2 _ hbreak).1 rfl
  · split at hl
    · cases hl
    · rw [List.mem_singleton.mp hl, breakLine, numberedLine, String.toList_append,
        List.mem_append] at hbreak
      obtain hbreak | hbreak := hbreak
      · exact (((Clear.append (by decide) (clear_padNumber 4 _)).append (by decide)) _ hbreak).1 rfl
      · exact absurd hbreak (by decide)

namespace Instruction

/-! ## 5. Bytes of words -/

theorem toNat_wordOfBytes (low high : UInt8) :
    (wordOfBytes low high).toNat = high.toNat * 256 + low.toNat := by
  have hlow := low.toNat_lt
  have hhigh := high.toNat_lt
  have hor := Nat.shiftLeft_add_eq_or_of_lt (i := 8) hlow high.toNat
  rw [Nat.shiftLeft_eq] at hor
  simp only [wordOfBytes, UInt16.toNat_or, UInt16.toNat_shiftLeft, UInt8.toNat_toUInt16,
    UInt16.reduceToNat, Nat.reduceMod, Nat.shiftLeft_eq]
  rw [Nat.mod_eq_of_lt (by omega), Nat.or_comm, ← hor]

/-- **The word of the two bytes of a word** is that word. -/
theorem wordOfBytes_wordBytes (w : UInt16) : wordOfBytes w.toUInt8 (w >>> 8).toUInt8 = w := by
  apply UInt16.toNat_inj.mp
  have hw := w.toNat_lt
  simp only [toNat_wordOfBytes, UInt16.toNat_toUInt8, UInt16.toNat_shiftRight,
    UInt16.reduceToNat, Nat.reduceMod, Nat.shiftRight_eq_div_pow]
  omega

theorem wordBytes_wordOfBytes (low high : UInt8) :
    wordBytes (wordOfBytes low high) = [low, high] := by
  have hlow := low.toNat_lt
  have hhigh := high.toNat_lt
  have hfirst : (wordOfBytes low high).toUInt8 = low := by
    apply UInt8.toNat_inj.mp
    rw [UInt16.toNat_toUInt8, toNat_wordOfBytes]
    omega
  have hsecond : (wordOfBytes low high >>> 8).toUInt8 = high := by
    apply UInt8.toNat_inj.mp
    simp only [UInt16.toNat_toUInt8, UInt16.toNat_shiftRight, toNat_wordOfBytes,
      UInt16.reduceToNat, Nat.reduceMod, Nat.shiftRight_eq_div_pow]
    omega
  rw [wordBytes, hfirst, hsecond]

/-! ## 6. Words of instructions -/

/-- Whether the instruction has a use for the operand of its word. -/
def readsOperand : Instruction → Bool
  | arrayElement | stop => false
  | _ => true

/-- A word with all bits of its operand zero. -/
def withoutOperand (w : UInt16) : UInt16 := (w >>> operandBits) <<< operandBits

theorem toNat_shiftRight_operandBits (w : UInt16) :
    (w >>> operandBits).toNat = w.toNat / 0x2000 := by
  simp [operandBits, UInt16.toNat_shiftRight, Nat.shiftRight_eq_div_pow]

theorem toNat_and_operandMask (w : UInt16) : (w &&& operandMask).toNat = w.toNat % 0x2000 := by
  rw [UInt16.toNat_and]
  exact Nat.and_two_pow_sub_one_eq_mod w.toNat 13

theorem toNat_parts_lt (i : Instruction) : i.parts.1.toNat < 8 := by cases i <;> simp [parts]

/-- A word is the number of its instruction and, below that, thirteen bits of the operand. -/
theorem toNat_word (i : Instruction) :
    i.word.toNat = i.parts.1.toNat * 0x2000 + i.parts.2.toNat % 0x2000 := by
  have hopcode := toNat_parts_lt i
  have hoperand : i.parts.2.toNat % 0x2000 < 2 ^ 13 := Nat.mod_lt _ (by decide)
  have hor := Nat.shiftLeft_add_eq_or_of_lt hoperand i.parts.1.toNat
  rw [Nat.shiftLeft_eq] at hor
  rw [word, UInt16.toNat_or, toNat_and_operandMask, UInt16.toNat_shiftLeft, Nat.shiftLeft_eq,
    show operandBits.toNat % 16 = 13 from rfl, Nat.mod_eq_of_lt (by omega), ← hor]

/-- What is read from a word: its high bits, and its operand where there is a use for one. -/
theorem parts_ofWord (w : UInt16) : (ofWord w).parts.1 = w >>> operandBits
    ∧ (ofWord w).parts.2 = if (ofWord w).readsOperand then w &&& operandMask else 0 := by
  have hopcode (n : UInt16) (h : (w >>> operandBits).toNat = n.toNat) : n = w >>> operandBits :=
    (UInt16.toNat_inj.mp h).symm
  have hw := w.toNat_lt
  unfold ofWord
  dsimp only
  split
  case _ h => exact ⟨hopcode 0 h, rfl⟩
  case _ h => exact ⟨hopcode 1 h, rfl⟩
  case _ h => exact ⟨hopcode 2 h, rfl⟩
  case _ h => exact ⟨hopcode 3 h, rfl⟩
  case _ h => exact ⟨hopcode 4 h, rfl⟩
  case _ h => exact ⟨hopcode 5 h, rfl⟩
  case _ h => exact ⟨hopcode 6 h, rfl⟩
  case _ h0 h1 h2 h3 h4 h5 h6 =>
    refine ⟨hopcode 7 ?_, rfl⟩
    have hhigh := toNat_shiftRight_operandBits w
    simp only [imp_false] at h0 h1 h2 h3 h4 h5 h6
    simp only [UInt16.reduceToNat]
    omega

theorem toNat_withoutOperand (w : UInt16) :
    (withoutOperand w).toNat = w.toNat / 0x2000 * 0x2000 := by
  have hw := w.toNat_lt
  rw [withoutOperand, UInt16.toNat_shiftLeft, toNat_shiftRight_operandBits, Nat.shiftLeft_eq,
    show operandBits.toNat % 16 = 13 from rfl]
  omega

/-- **A word that is read and written again** keeps its high bits, and its operand where there is a
    use for one. -/
theorem word_ofWord (w : UInt16) :
    (ofWord w).word = if (ofWord w).readsOperand then w else withoutOperand w := by
  obtain ⟨hopcode, hoperand⟩ := parts_ofWord w
  apply UInt16.toNat_inj.mp
  rw [toNat_word, hopcode, hoperand, toNat_shiftRight_operandBits]
  split
  · rw [toNat_and_operandMask]
    omega
  · simp [toNat_withoutOperand]

/-- What is read from the word of an instruction whose operand fits. -/
theorem ofWord_word {i : Instruction} (h : i.parts.2.toNat < 0x2000) : ofWord i.word = i := by
  have hopcode : (i.word >>> operandBits).toNat = i.parts.1.toNat := by
    rw [toNat_shiftRight_operandBits, toNat_word]
    omega
  have hoperand : i.word &&& operandMask = i.parts.2 := by
    apply UInt16.toNat_inj.mp
    rw [toNat_and_operandMask, toNat_word]
    omega
  unfold ofWord
  cases i <;> simp [hopcode, hoperand, parts]

/-- **What is read from a word** is read from it again after it was written. -/
theorem ofWord_word_ofWord (w : UInt16) : ofWord (ofWord w).word = ofWord w := by
  refine ofWord_word ?_
  rw [(parts_ofWord w).2]
  split
  · rw [toNat_and_operandMask]
    exact Nat.mod_lt _ (by decide)
  · decide

end Instruction

/-! ## 7. Streams -/

/-- **A stream without what no instruction reads**: the operand bits of each word whose instruction
    has no use for them are zero. A last byte alone stays as it is. -/
def cleared : List UInt8 → List UInt8
  | low :: high :: rest =>
    let w := wordOfBytes low high
    (if (ofWord w).readsOperand then [low, high] else wordBytes (withoutOperand w)) ++ cleared rest
  | bytes => bytes

theorem length_instructionBytes (is : List Instruction) :
    (instructionBytes is).length = 2 * is.length := by
  induction is with
  | nil => rfl
  | cons i is ih =>
    rw [instructionBytes, List.flatMap_cons, List.length_append, List.length_cons, Nat.mul_succ,
      Nat.add_comm]
    exact congrArg (· + 2) ih

/-- **The words of a stream written again** are its bytes as far as it goes, cleared. -/
theorem instructionBytes_scan : ∀ bytes : List UInt8,
    instructionBytes (scan bytes) = cleared (bytes.take (2 * (scan bytes).length))
  | low :: high :: rest => by
    have hword : wordBytes (ofWord (wordOfBytes low high)).word
        = if (ofWord (wordOfBytes low high)).readsOperand then [low, high]
          else wordBytes (withoutOperand (wordOfBytes low high)) := by
      rw [word_ofWord, apply_ite wordBytes, wordBytes_wordOfBytes]
    unfold scan
    dsimp only
    split
    · simp [instructionBytes, cleared, hword]
    · have ih := instructionBytes_scan rest
      simp only [List.length_cons, Nat.mul_succ, List.take_succ_cons, cleared, ← ih, ← hword]
      rfl
  | [] | [_] => rfl

theorem scan_cons (low high : UInt8) (rest : List UInt8) :
    scan (low :: high :: rest) = if ofWord (wordOfBytes low high) = stop then [stop]
      else ofWord (wordOfBytes low high) :: scan rest := by
  rw [scan]
  split
  · next hstop => rw [hstop]
  · rfl

theorem scan_wordBytes_append (w : UInt16) (rest : List UInt8) :
    scan (wordBytes (ofWord w).word ++ rest)
      = if ofWord w = stop then [stop] else ofWord w :: scan rest := by
  rw [wordBytes, List.cons_append, List.cons_append, List.nil_append, scan_cons,
    wordOfBytes_wordBytes, ofWord_word_ofWord]

/-- **Who reads it again** comes past the same instructions. -/
theorem scan_instructionBytes : ∀ bytes : List UInt8,
    scan (instructionBytes (scan bytes)) = scan bytes
  | low :: high :: rest => by
    have hcons (is : List Instruction) :
        instructionBytes (ofWord (wordOfBytes low high) :: is)
          = wordBytes (ofWord (wordOfBytes low high)).word ++ instructionBytes is := rfl
    rw [scan_cons]
    split
    · next hstop => rw [← hstop, hcons, scan_wordBytes_append, if_pos hstop, hstop]
    · next hstop =>
      rw [hcons, scan_wordBytes_append, if_neg hstop, scan_instructionBytes rest]
  | [] | [_] => rfl

/-- An end is come past from further in front, too. -/
theorem stop_mem_scan_append {bytes : List UInt8} (h : stop ∈ scan bytes) (is : List Instruction) :
    stop ∈ scan (instructionBytes is ++ bytes) := by
  induction is with
  | nil => exact h
  | cons i is ih =>
    have hcons : instructionBytes (i :: is) ++ bytes
        = i.word.toUInt8 :: (i.word >>> 8).toUInt8 :: (instructionBytes is ++ bytes) := rfl
    rw [hcons, scan_cons]
    split
    · exact List.mem_cons_self
    · exact List.mem_cons_of_mem _ ih

/-- **A stream that was written has an end.** -/
theorem stop_mem_scan_encode (is : List Instruction) : stop ∈ scan (encode is) := by
  have hend : stop ∈ scan (wordBytes stop.word) := by decide
  unfold encode
  split
  · next hlast =>
    obtain ⟨front, rfl⟩ := List.getLast?_eq_some_iff.mp hlast
    have hbytes : instructionBytes (front ++ [stop]) ++ []
        = instructionBytes front ++ wordBytes stop.word := by
      rw [List.append_nil, instructionBytes, List.flatMap_append]
      rfl
    rw [hbytes]
    exact stop_mem_scan_append hend front
  · exact stop_mem_scan_append hend is

end InstrumentFlow.Bytecode
