import InstrumentFlow.Proofs.Programs.Parts

/-!
# Whole payloads and their listings

A listing goes through the bytes of a payload without running anything, and shows damaged ones too.
Where it ends with the line of the last tag, the bytes before that tag are whole parts.

* `Part.lines`, `endLine` -- the lines of a part, with the disassembly of its stream;
* `Laid` -- a payload of whole parts, and `Begins` -- what a reader of one part finds;
* `partLines_of_laid`, `exists_laid_of_getLast?` -- **its listing** is that of its parts, and no other
  payload has a listing that ends with the last tag;
* `Damage`, `not_damage_of_laid` -- it shows nothing that is missing, breaks off or is unknown;
* `length_partLines_le` -- how many lines any payload has;
* `textLines_joinLines_partLines` -- each of them is one line of the text.
-/

namespace InstrumentFlow.Scpi

open Bytecode Instruction
open Text (decodeUtf8Lossy quoted quotedChar)

/-! ## 1. Lines -/

/-- The disassembly of a stream inside a listing of parts. -/
def streamPart (code : List UInt8) : List String :=
  (textLines (disassemble code)).map ("      " ++ ·)

/-- **The lines of a part.** -/
def Part.lines : Part → List String
  | text s => ["    STRING " ++ quoted s]
  | expression code => "    EXPR" :: streamPart code
  | queryAssign target => "    QUERY_WITH_ASSIGNMENT" :: streamPart target
  | query => ["    QUERY"]
  | command => ["    COMMAND"]

/-- The line of the last tag. -/
def endLine : String := "    END"

theorem numberedLine_eq (indent : String) (number : Nat) (text : String) :
    numberedLine indent number text = indent ++ numberedLine "" number text := by
  simp only [numberedLine, String.append_assoc, String.empty_append]

/-- The indent stands in front of every line. -/
theorem streamLines_indent (indent : String) : ∀ (bytes : List UInt8) (number : Nat),
    streamLines indent number bytes = (streamLines "" number bytes).map (indent ++ ·)
  | low :: high :: rest, number => by
    have ih := streamLines_indent indent rest (number + 1)
    unfold streamLines
    dsimp only
    split
    · rw [List.map_singleton, numberedLine_eq]
    · rw [List.map_cons, numberedLine_eq, ih]
  | [], number | [_], number => by
    unfold streamLines
    rw [List.map_singleton, numberedLine_eq]

theorem textLines_disassemble_eq (bytes : List UInt8) :
    textLines (disassemble bytes) = streamLines "" 0 bytes := by
  rw [textLines_disassemble, streamLines_eq, Nat.zero_add]

theorem streamPart_eq (code : List UInt8) : streamPart code = streamLines "      " 0 code := by
  rw [streamPart, textLines_disassemble_eq, ← streamLines_indent]

/-- Who lists the same words shows the same lines. -/
theorem streamLines_congr {code code' : List UInt8} (h : scan code = scan code') (indent : String)
    (number : Nat) : streamLines indent number code = streamLines indent number code' := by
  rw [streamLines_eq, streamLines_eq, h]

/-! ## 2. Tags -/

theorem PartTag.ofByte?_byte (t : PartTag) : PartTag.ofByte? t.byte = some t := by
  cases t <;> rfl

theorem PartTag.byte_of_ofByte? {b : UInt8} {t : PartTag} (h : PartTag.ofByte? b = some t) :
    b = t.byte := by
  have hbeq := List.find?_some h
  exact (beq_iff_eq.mp hbeq).symm

/-- The listing of a text that is there as a whole. -/
theorem partLines_text {low high : UInt8} {bytes rest : List UInt8}
    (h : (wordOfBytes low high).toNat = bytes.length) :
    partLines (PartTag.text.byte :: low :: high :: (bytes ++ rest))
      = ("    STRING " ++ quoted (decodeUtf8Lossy bytes)) :: partLines rest := by
  rw [partLines, PartTag.ofByte?_byte]
  dsimp only
  rw [h, if_pos (by simp), List.take_left, List.drop_left]

theorem partLines_expression (body : List UInt8) :
    partLines (PartTag.expression.byte :: body)
      = "    EXPR" :: (streamLines "      " 0 body ++ partLines (body.drop (streamLength body))) := by
  rw [partLines.eq_def]
  simp only [PartTag.ofByte?_byte]

theorem partLines_queryAssign (body : List UInt8) :
    partLines (PartTag.queryAssign.byte :: body) = "    QUERY_WITH_ASSIGNMENT"
      :: (streamLines "      " 0 body ++ partLines (body.drop (streamLength body))) := by
  rw [partLines.eq_def]
  simp only [PartTag.ofByte?_byte]

theorem partLines_query (body : List UInt8) :
    partLines (PartTag.query.byte :: body) = "    QUERY" :: partLines body := by
  rw [partLines.eq_def]
  simp only [PartTag.ofByte?_byte]

theorem partLines_command (body : List UInt8) :
    partLines (PartTag.command.byte :: body) = "    COMMAND" :: partLines body := by
  rw [partLines.eq_def]
  simp only [PartTag.ofByte?_byte]

theorem partLines_finish (body : List UInt8) :
    partLines (PartTag.finish.byte :: body) = [endLine] := by
  rw [partLines.eq_def]
  simp only [PartTag.ofByte?_byte]
  rfl

/-! ## 3. Whole payloads -/

/-- **A payload of whole parts up to its last tag.** What follows that tag belongs to no part. -/
inductive Laid : List UInt8 → List Part → Prop
  | finish (rest : List UInt8) : Laid (PartTag.finish.byte :: rest) []
  | text {low high : UInt8} {bytes rest : List UInt8} {parts : List Part}
      (hlength : (wordOfBytes low high).toNat = bytes.length) (hrest : Laid rest parts) :
      Laid (PartTag.text.byte :: low :: high :: (bytes ++ rest))
        (.text (decodeUtf8Lossy bytes) :: parts)
  | expression {code rest : List UInt8} {parts : List Part} (hwhole : (Part.expression code).Whole)
      (hrest : Laid rest parts) :
      Laid (PartTag.expression.byte :: (code ++ rest)) (.expression code :: parts)
  | queryAssign {target rest : List UInt8} {parts : List Part}
      (hwhole : (Part.queryAssign target).Whole) (hrest : Laid rest parts) :
      Laid (PartTag.queryAssign.byte :: (target ++ rest)) (.queryAssign target :: parts)
  | query {rest : List UInt8} {parts : List Part} (hrest : Laid rest parts) :
      Laid (PartTag.query.byte :: rest) (.query :: parts)
  | command {rest : List UInt8} {parts : List Part} (hrest : Laid rest parts) :
      Laid (PartTag.command.byte :: rest) (.command :: parts)

/-- A stream that ends with its first end is shown and measured without what follows. -/
theorem streamLines_append_of_whole {code : List UInt8}
    (h : ∃ is, decode code = .ok is ∧ code.length = 2 * is.length) (rest : List UInt8) :
    streamLines "      " 0 (code ++ rest) = streamPart code
      ∧ (code ++ rest).drop (streamLength (code ++ rest)) = rest := by
  obtain ⟨hstop, hlength, hscan⟩ := scan_append_of_whole h rest
  have hmeasure : streamLength (code ++ rest) = code.length := by
    rw [streamLength_eq, hscan, if_pos hstop, hlength]
  exact ⟨by rw [streamPart_eq, streamLines_congr hscan], by rw [hmeasure, List.drop_left]⟩

/-- **The listing of whole parts**: their lines, one part after the other, and the last tag. -/
theorem partLines_of_laid {payload : List UInt8} {parts : List Part} (h : Laid payload parts) :
    partLines payload = parts.flatMap Part.lines ++ [endLine] := by
  induction h with
  | finish rest => exact partLines_finish rest
  | text hlength _ ih => rw [partLines_text hlength, ih]; rfl
  | expression hwhole _ ih =>
    obtain ⟨hlines, hdrop⟩ := streamLines_append_of_whole hwhole _
    rw [partLines_expression, hlines, hdrop, ih, List.flatMap_cons, Part.lines, List.append_assoc,
      List.cons_append]
  | queryAssign hwhole _ ih =>
    obtain ⟨hlines, hdrop⟩ := streamLines_append_of_whole hwhole _
    rw [partLines_queryAssign, hlines, hdrop, ih, List.flatMap_cons, Part.lines,
      List.append_assoc, List.cons_append]
  | query _ ih => rw [partLines_query, ih]; rfl
  | command _ ih => rw [partLines_command, ih]; rfl

/-- The front of a stream up to and with its first end, where there is one. -/
theorem whole_take {body : List UInt8} (hstop : .stop ∈ scan body) :
    ∃ is, decode (body.take (2 * (scan body).length)) = .ok is
      ∧ (body.take (2 * (scan body).length)).length = 2 * is.length := by
  have hscan : scan (body.take (2 * (scan body).length)) = scan body := by
    simpa using scan_take_append [] hstop
  refine ⟨scan body, ?_, List.length_take_of_le (length_scan_le body)⟩
  rw [decode_eq, hscan, if_pos hstop]

/-- **What stands at the place of a part**, said from the front that its reader finds. -/
inductive Begins : List UInt8 → PartHead → Prop
  | text {low high : UInt8} {bytes : List UInt8} (rest : List UInt8)
      (hlength : (wordOfBytes low high).toNat = bytes.length) :
      Begins (PartTag.text.byte :: low :: high :: (bytes ++ rest))
        (.text (decodeUtf8Lossy bytes) (bytes.length + 2))
  | expression (body : List UInt8) : Begins (PartTag.expression.byte :: body) .expression
  | queryAssign (body : List UInt8) : Begins (PartTag.queryAssign.byte :: body) .queryAssign
  | query (body : List UInt8) : Begins (PartTag.query.byte :: body) .query
  | command (body : List UInt8) : Begins (PartTag.command.byte :: body) .command
  | finish (body : List UInt8) : Begins (PartTag.finish.byte :: body) .finish

theorem begins_of_readText {body : List UInt8} {r : String × Nat} (h : readText body = .ok r) :
    Begins (PartTag.text.byte :: body) (.text r.1 r.2) := by
  unfold readText at h
  split at h
  · next low high rest =>
    dsimp only at h
    split at h
    · next hle =>
      obtain rfl := Except.ok.inj h
      have hlength := List.length_take_of_le hle
      have hbegins := Begins.text (rest.drop (wordOfBytes low high).toNat) hlength.symm
      rwa [List.take_append_drop, hlength] at hbegins
    · cases h
  · cases h

theorem begins_of_readHead {payload : List UInt8} {offset : Nat} {head : PartHead}
    (h : readHead payload offset = .ok head) : Begins (payload.drop offset) head := by
  unfold readHead at h
  split at h
  · cases h
  · next tag body hdrop =>
    rw [hdrop]
    split at h
    all_goals try obtain rfl := PartTag.byte_of_ofByte? ‹_›
    case h_1 =>
      cases hread : readText body with
      | error defect =>
        rw [hread] at h
        cases h
      | ok r =>
        rw [hread] at h
        obtain rfl := Except.ok.inj h
        exact begins_of_readText hread
    case h_2 => exact Except.ok.inj h ▸ .expression body
    case h_3 => exact Except.ok.inj h ▸ .queryAssign body
    case h_4 => exact Except.ok.inj h ▸ .query body
    case h_5 => exact Except.ok.inj h ▸ .command body
    case h_6 => exact Except.ok.inj h ▸ .finish body
    case h_7 => cases h

/-! ## 4. Telling lines apart -/

/-- The first character behind the indent of a part's line. -/
def lead? (line : String) : Option Char := line.toList[4]?

/-- What a listing shows where a payload is damaged. -/
inductive Damage : String → Prop
  | truncated : Damage "    <truncated>"
  | unterminated (number : Nat) : Damage (breakLine "      " number)
  | unknown (tag : UInt8) : Damage s!"    <unknown part {tag}>"

theorem lead?_append (s t : String) (h : 4 < s.toList.length) : lead? (s ++ t) = lead? s := by
  rw [lead?, lead?, String.toList_append, List.getElem?_append_left h]

theorem lead?_of_mem_streamPart {code : List UInt8} {l : String} (h : l ∈ streamPart code) :
    lead? l = some ' ' := by
  obtain ⟨line, -, rfl⟩ := List.mem_map.mp h
  rw [lead?_append _ _ (by decide)]
  rfl

theorem lead?_unknown (tag : UInt8) : lead? s!"    <unknown part {tag}>" = some '<' := by
  have hline : s!"    <unknown part {tag}>" = "    <unknown part " ++ (toString tag ++ ">") :=
    String.append_assoc ..
  rw [hline, lead?_append _ _ (by decide)]
  rfl

theorem lead?_breakLine (number : Nat) : lead? (breakLine "      " number) = some ' ' := by
  rw [breakLine, numberedLine_eq, lead?_append _ _ (by decide)]
  rfl

/-- A line that begins with a letter shows no damage. -/
theorem not_damage_of_lead? {l : String} {c : Char} (h : lead? l = some c) (hc : c.isAlpha) :
    ¬Damage l := by
  intro hdamage
  have hlead : lead? l = some '<' ∨ lead? l = some ' ' := by
    cases hdamage with
    | truncated => exact .inl rfl
    | unterminated number => exact .inr (lead?_breakLine number)
    | unknown tag => exact .inl (lead?_unknown tag)
  rw [h, Option.some.injEq, Option.some.injEq] at hlead
  obtain rfl | rfl := hlead <;> exact absurd hc (by decide)

/-- A stream that comes to its end shows no break. -/
theorem not_damage_of_mem_streamPart {code : List UInt8} (hstop : .stop ∈ scan code) {l : String}
    (h : l ∈ streamPart code) : ¬Damage l := by
  intro hdamage
  have hlead := lead?_of_mem_streamPart h
  cases hdamage with
  | truncated => cases hlead
  | unterminated number =>
    obtain ⟨line, hline, heq⟩ := List.mem_map.mp h
    rw [textLines_disassemble, if_pos hstop, List.append_nil] at hline
    obtain ⟨p, -, rfl⟩ := List.mem_map.mp hline
    rw [breakLine, numberedLine_eq] at heq
    exact instructionLine_ne_breakLine p.1 p.2 number (String.append_right_inj _ |>.mp heq)
  | unknown tag => exact absurd (hlead.symm.trans (lead?_unknown tag)) (by decide)

theorem not_damage_of_mem_lines {p : Part} (hwhole : p.Whole) {l : String} (h : l ∈ p.lines) :
    ¬Damage l := by
  cases p with
  | text s =>
    rw [List.mem_singleton.mp h]
    exact not_damage_of_lead? (lead?_append _ _ (by decide)) (by decide)
  | expression code | queryAssign code =>
    obtain rfl | h := List.mem_cons.mp h
    · exact not_damage_of_lead? rfl (by decide)
    · obtain ⟨hstop, -, -⟩ := scan_append_of_whole hwhole []
      exact not_damage_of_mem_streamPart hstop h
  | query | command =>
    rw [List.mem_singleton.mp h]
    exact not_damage_of_lead? rfl (by decide)

theorem whole_of_laid {payload : List UInt8} {parts : List Part} (h : Laid payload parts) :
    ∀ p ∈ parts, p.Whole := by
  induction h with
  | finish => exact fun _ hp => nomatch hp
  | text _ _ ih | query _ ih | command _ ih => exact List.forall_mem_cons.mpr ⟨trivial, ih⟩
  | expression hwhole _ ih | queryAssign hwhole _ ih => exact List.forall_mem_cons.mpr ⟨hwhole, ih⟩

/-- **The listing of whole parts shows no damage.** -/
theorem not_damage_of_laid {payload : List UInt8} {parts : List Part} (h : Laid payload parts)
    {l : String} (hl : l ∈ partLines payload) : ¬Damage l := by
  rw [partLines_of_laid h, List.mem_append, List.mem_flatMap] at hl
  obtain ⟨p, hp, hl⟩ | hl := hl
  · exact not_damage_of_mem_lines (whole_of_laid h p hp) hl
  · rw [List.mem_singleton.mp hl]
    exact not_damage_of_lead? rfl (by decide)

/-! ## 5. Listings that end with the last tag -/

/-- Lines behind others that cannot end a listing end it themselves. -/
theorem getLast?_of_append {front rest : List String} (hfront : ∀ l ∈ front, l ≠ endLine)
    (h : (front ++ rest).getLast? = some endLine) : rest.getLast? = some endLine := by
  rw [List.getLast?_append] at h
  cases hrest : rest.getLast? with
  | some l => rwa [hrest] at h
  | none =>
    rw [hrest] at h
    exact absurd rfl (hfront endLine (List.mem_of_getLast? h))

theorem ne_endLine_of_mem_streamLines {body : List UInt8} {l : String}
    (h : l ∈ streamLines "      " 0 body) : l ≠ endLine := by
  rintro rfl
  rw [← streamPart_eq] at h
  cases lead?_of_mem_streamPart h

/-- The stream of a part at the end of which a listing goes on has an end. -/
theorem exists_whole_of_drop {body : List UInt8} (h : body.drop (streamLength body) ≠ []) :
    ∃ code, body = code ++ body.drop (streamLength body)
      ∧ ∃ is, decode code = .ok is ∧ code.length = 2 * is.length := by
  have hstop : .stop ∈ scan body := by
    by_contra hno
    rw [streamLength_eq, if_neg hno, List.drop_length] at h
    exact h rfl
  refine ⟨body.take (streamLength body), (List.take_append_drop _ _).symm, ?_⟩
  rw [streamLength_eq, if_pos hstop]
  exact whole_take hstop

theorem ne_nil_of_getLast? {rest : List UInt8} (h : (partLines rest).getLast? = some endLine) :
    rest ≠ [] := by
  rintro rfl
  rw [partLines] at h
  cases h

/-- A listing that ends with the last tag goes on behind the whole stream of a part. -/
theorem exists_whole_of_getLast? {title : String} {body : List UInt8} (htitle : title ≠ endLine)
    (h : (title :: (streamLines "      " 0 body ++ partLines (body.drop (streamLength body)))).getLast?
      = some endLine) :
    (partLines (body.drop (streamLength body))).getLast? = some endLine
      ∧ ∃ code, body = code ++ body.drop (streamLength body)
        ∧ ∃ is, decode code = .ok is ∧ code.length = 2 * is.length := by
  rw [← List.cons_append] at h
  have hlast := getLast?_of_append (List.forall_mem_cons.mpr
    ⟨htitle, fun _ => ne_endLine_of_mem_streamLines⟩) h
  exact ⟨hlast, exists_whole_of_drop (ne_nil_of_getLast? hlast)⟩

theorem ne_endLine_text (text : String) : "    STRING " ++ text ≠ endLine := by
  intro h
  have hlead := congrArg lead? h
  rw [lead?_append _ _ (by decide)] at hlead
  cases hlead

theorem ne_endLine_unknown (tag : UInt8) : s!"    <unknown part {tag}>" ≠ endLine := by
  intro h
  have hlead := (lead?_unknown tag).symm.trans (congrArg lead? h)
  cases hlead

/-- **A listing that ends with the last tag** is that of whole parts. -/
theorem exists_laid_of_getLast? (payload : List UInt8)
    (h : (partLines payload).getLast? = some endLine) : ∃ parts, Laid payload parts := by
  induction payload using partLines.induct with
  | case1 => exact absurd rfl (ne_nil_of_getLast? h)
  | case2 tag htag low high rest length ih =>
    obtain rfl := PartTag.byte_of_ofByte? htag
    rw [partLines.eq_def] at h
    simp only [PartTag.ofByte?_byte] at h
    have hlast : (partLines (rest.drop length)).getLast? = some endLine :=
      getLast?_of_append (List.forall_mem_singleton.mpr (ne_endLine_text _)) h
    have hlength : length < rest.length :=
      List.length_lt_of_drop_ne_nil (ne_nil_of_getLast? hlast)
    obtain ⟨parts, hparts⟩ := ih hlast
    have hlaid : Laid (PartTag.text.byte :: low :: high
        :: (rest.take length ++ rest.drop length)) _ :=
      .text (List.length_take_of_le (Nat.le_of_lt hlength)).symm hparts
    rw [List.take_append_drop] at hlaid
    exact ⟨_, hlaid⟩
  | case3 tag body htag hshort =>
    obtain rfl := PartTag.byte_of_ofByte? htag
    rw [partLines.eq_def] at h
    simp only [PartTag.ofByte?_byte] at h
    exact absurd (Option.some.inj h) (by decide)
  | case4 tag body htag ih =>
    obtain rfl := PartTag.byte_of_ofByte? htag
    rw [partLines_expression] at h
    obtain ⟨hlast, code, hbody, hwhole⟩ := exists_whole_of_getLast? (by decide) h
    obtain ⟨parts, hparts⟩ := ih hlast
    have hlaid := Laid.expression hwhole hparts
    rw [← hbody] at hlaid
    exact ⟨_, hlaid⟩
  | case5 tag body htag ih =>
    obtain rfl := PartTag.byte_of_ofByte? htag
    rw [partLines_queryAssign] at h
    obtain ⟨hlast, code, hbody, hwhole⟩ := exists_whole_of_getLast? (by decide) h
    obtain ⟨parts, hparts⟩ := ih hlast
    have hlaid := Laid.queryAssign hwhole hparts
    rw [← hbody] at hlaid
    exact ⟨_, hlaid⟩
  | case6 tag body htag ih =>
    obtain rfl := PartTag.byte_of_ofByte? htag
    rw [partLines_query] at h
    obtain ⟨parts, hparts⟩ := ih (getLast?_of_append (List.forall_mem_singleton.mpr (by decide)) h)
    exact ⟨_, .query hparts⟩
  | case7 tag body htag ih =>
    obtain rfl := PartTag.byte_of_ofByte? htag
    rw [partLines_command] at h
    obtain ⟨parts, hparts⟩ := ih (getLast?_of_append (List.forall_mem_singleton.mpr (by decide)) h)
    exact ⟨_, .command hparts⟩
  | case8 tag body htag =>
    obtain rfl := PartTag.byte_of_ofByte? htag
    exact ⟨[], .finish body⟩
  | case9 tag body htag =>
    rw [partLines.eq_def] at h
    simp only [htag] at h
    exact absurd (Option.some.inj h) (ne_endLine_unknown tag)

/-! ## 6. Any listing -/

/-- A stream and what follows it have at most one line more than bytes, if that holds of what
    follows. -/
theorem length_stream_le {body : List UInt8}
    (h : (partLines (body.drop (streamLength body))).length
      ≤ (body.drop (streamLength body)).length + 1) :
    (streamLines "      " 0 body ++ partLines (body.drop (streamLength body))).length
      ≤ body.length + 1 := by
  rw [List.length_append, streamLines_eq, List.length_append, List.length_map, List.length_zipIdx]
  have hscan := length_scan_le body
  rw [List.length_drop] at h
  by_cases hstop : .stop ∈ scan body
  · have hpos := List.length_pos_of_mem hstop
    have hmeasure : streamLength body = 2 * (scan body).length := by
      rw [streamLength_eq, if_pos hstop]
    rw [if_pos hstop, List.length_nil]
    omega
  · have hmeasure : streamLength body = body.length := by rw [streamLength_eq, if_neg hstop]
    have hrest : (partLines (body.drop (streamLength body))).length = 0 := by
      rw [hmeasure, List.drop_length, partLines, List.length_nil]
    rw [if_neg hstop, List.length_singleton, hrest]
    omega

/-- **A listing has at most one line more than the payload has bytes.** -/
theorem length_partLines_le (payload : List UInt8) :
    (partLines payload).length ≤ payload.length + 1 := by
  induction payload using partLines.induct with
  | case1 =>
    rw [partLines]
    exact Nat.zero_le _
  | case2 tag htag low high rest length ih =>
    rw [partLines.eq_def]
    simp only [htag, List.length_cons]
    have hdrop : (rest.drop length).length ≤ rest.length := by
      rw [List.length_drop]
      exact Nat.sub_le _ _
    have hrest := Nat.le_trans ih (Nat.succ_le_succ hdrop)
    exact Nat.succ_le_succ (Nat.le_trans hrest (Nat.le_add_right _ 2))
  | case3 tag body htag hshort =>
    rw [partLines.eq_def]
    simp [htag]
  | case4 tag body htag ih | case5 tag body htag ih =>
    have hstream := length_stream_le ih
    rw [partLines.eq_def]
    simp only [htag, List.length_cons]
    exact Nat.succ_le_succ hstream
  | case6 tag body htag ih | case7 tag body htag ih =>
    rw [partLines.eq_def]
    simp only [htag, List.length_cons]
    exact Nat.succ_le_succ ih
  | case8 tag body htag | case9 tag body htag =>
    rw [partLines.eq_def]
    simp [htag]

theorem mem_hexDigits {n : Nat} {c : Char} (h : c ∈ Text.hexDigits n) :
    ∃ k < 16, c = Nat.digitChar k := by
  unfold Text.hexDigits at h
  induction n using Nat.strongRecOn with
  | ind n ih =>
    by_cases hsmall : n < 16
    · rw [Nat.toDigits_of_lt_base hsmall, List.mem_singleton] at h
      exact ⟨n, hsmall, h⟩
    · rw [Nat.toDigits_of_base_le (by decide) (by omega), List.mem_append, List.mem_singleton] at h
      obtain h | h := h
      · exact ih (n / 16) (by omega) h
      · exact ⟨n % 16, Nat.mod_lt _ (by decide), h⟩

theorem digitChar_ne_lineEnd : ∀ k < 16, Nat.digitChar k ≠ '\n' := by decide

theorem ne_of_mem_quotedChar {c d : Char} (h : d ∈ quotedChar c) : d ≠ '\n' := by
  rintro rfl
  unfold quotedChar at h
  split at h
  case h_7 hline _ _ _ =>
    split at h
    · have hdigits : '\n' ∉ Text.hexDigits c.toNat := fun hmem => by
        obtain ⟨k, hk, hchar⟩ := mem_hexDigits hmem
        exact digitChar_ne_lineEnd k hk hchar.symm
      simp [hdigits] at h
    · exact hline (List.mem_singleton.mp h).symm
  all_goals exact absurd h (by decide)

/-- A text between quotation marks has no line end. -/
theorem not_mem_quoted (s : String) : '\n' ∉ (quoted s).toList := by
  rw [quoted, String.toList_ofList]
  intro h
  obtain hmark | h := List.mem_cons.mp h
  · exact absurd hmark (by decide)
  · obtain h | hmark := List.mem_append.mp h
    · obtain ⟨c, -, hc⟩ := List.mem_flatMap.mp h
      exact ne_of_mem_quotedChar hc rfl
    · exact absurd hmark (by decide)

theorem not_mem_append {s t : String} {c : Char} (hs : c ∉ s.toList) (ht : c ∉ t.toList) :
    c ∉ (s ++ t).toList := by
  rw [String.toList_append, List.mem_append, not_or]
  exact ⟨hs, ht⟩

theorem not_mem_streamLines {body : List UInt8} {l : String}
    (h : l ∈ streamLines "      " 0 body) : '\n' ∉ l.toList := by
  rw [streamLines_eq, List.mem_append] at h
  obtain h | h := h
  · obtain ⟨p, -, rfl⟩ := List.mem_map.mp h
    rw [instructionLine, numberedLine_eq]
    exact not_mem_append (by decide) fun hmem => (clear_instructionLine p.1 p.2 _ hmem).1 rfl
  · split at h
    · cases h
    · rw [List.mem_singleton.mp h, breakLine, numberedLine]
      exact not_mem_append (not_mem_append (not_mem_append (by decide)
        fun hmem => (clear_padNumber 4 _ _ hmem).1 rfl) (by decide)) (by decide)

/-- No line of a listing has a line end. -/
theorem not_mem_partLines (payload : List UInt8) : ∀ l ∈ partLines payload, '\n' ∉ l.toList := by
  induction payload using partLines.induct with
  | case1 =>
    rw [partLines]
    exact fun _ h => nomatch h
  | case2 tag htag low high rest length ih =>
    rw [partLines.eq_def]
    simp only [htag]
    exact List.forall_mem_cons.mpr ⟨not_mem_append (by decide) (not_mem_quoted _), ih⟩
  | case3 tag body htag hshort =>
    rw [partLines.eq_def]
    simp only [htag]
    decide
  | case4 tag body htag ih | case5 tag body htag ih =>
    rw [partLines.eq_def]
    simp only [htag]
    refine List.forall_mem_cons.mpr ⟨by decide, fun l hl => ?_⟩
    exact (List.mem_append.mp hl).elim not_mem_streamLines (ih l)
  | case6 tag body htag ih | case7 tag body htag ih =>
    rw [partLines.eq_def]
    simp only [htag]
    exact List.forall_mem_cons.mpr ⟨by decide, ih⟩
  | case8 tag body htag =>
    rw [partLines.eq_def]
    simp only [htag]
    decide
  | case9 tag body htag =>
    rw [partLines.eq_def]
    simp only [htag]
    have htext : '\n' ∉ (toString tag).toList := fun hmem =>
      (ne_of_mem_toDigits (n := tag.toNat) (by simpa [toString, Nat.repr] using hmem)).1 rfl
    exact List.forall_mem_singleton.mpr
      (not_mem_append (not_mem_append (by decide) htext) (by decide))

/-- **Each line of a listing is one line of the text.** -/
theorem textLines_joinLines_partLines (payload : List UInt8) :
    textLines (joinLines (partLines payload)) = partLines payload :=
  textLines_joinLines (not_mem_partLines payload)

end InstrumentFlow.Scpi
