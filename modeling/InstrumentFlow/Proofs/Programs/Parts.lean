import InstrumentFlow.Proofs.Bytecode.Scan
import InstrumentFlow.Proofs.Text.Utf8
import InstrumentFlow.Scpi.Program

/-!
# Parts of a program, written and read

A program is written part by part without marks between them. Where a part ends follows from what it
is: from the length of a text, from the end of a stream, or at once.

* `Part`, `Program.add`, `payloadOf` -- the calls by which a program is written;
* `Part.Whole`, `Part.Short` -- a stream that ends with its first end; a text whose length can be
  written;
* `payloadOf_eq` -- a payload is the bytes of its parts and the last tag;
* `readHead_part` -- **the front of a part** at its place in a payload;
* `partAt?`, `partAt?_eq_some_iff` -- **a part is read back exactly if its text is short**.
-/

namespace InstrumentFlow.Scpi

open Bytecode
open Text (encodeUtf8 decodeUtf8Lossy decodeUtf8Lossy_encodeUtf8 length_le_of_decodeUtf8Lossy_take)

/-! ## 1. Writing -/

/-- One call by which a program is written. -/
inductive Part where
  | text (s : String)
  | expression (code : List UInt8)
  | queryAssign (target : List UInt8)
  | query
  | command
  deriving DecidableEq, Repr

namespace Program

def add (p : Program) : Part → Program
  | .text s => p.text s
  | .expression code => p.expression code
  | .queryAssign target => p.queryAssign target
  | .query => p.query
  | .command => p.command

/-- The program that the calls write, one after the other. -/
def ofParts (parts : List Part) : Program := parts.foldl add {}

end Program

/-- **The payload that the calls write.** -/
def payloadOf (parts : List Part) : List UInt8 := (Program.ofParts parts).finish

namespace Part

/-- What a call adds to the bytes. -/
def bytes (p : Part) : List UInt8 := (Program.add {} p).bytes

/-- The first end of the stream, where there is one, is its last word. -/
def Whole : Part → Prop
  | expression code | queryAssign code => ∃ is, decode code = .ok is ∧ code.length = 2 * is.length
  | _ => True

/-- The length of the text, where there is one, can be written in sixteen bits. -/
def Short : Part → Prop
  | text s => (encodeUtf8 s).length < 0x10000
  | _ => True

instance : (p : Part) → Decidable p.Short
  | text s => inferInstanceAs (Decidable ((encodeUtf8 s).length < 0x10000))
  | expression _ | queryAssign _ | query | command => inferInstanceAs (Decidable True)

/-- The front by which the part is recognised. -/
def head : Part → PartHead
  | text s => .text s ((encodeUtf8 s).length + 2)
  | expression _ => .expression
  | queryAssign _ => .queryAssign
  | query => .query
  | command => .command

end Part

theorem Part.length_bytes_pos (p : Part) : 0 < p.bytes.length := by
  cases p <;> exact Nat.succ_pos _

/-- The count of bytes that parts take. -/
def extent (parts : List Part) : Nat := (parts.flatMap Part.bytes).length

theorem bytes_add (p : Program) (part : Part) : (p.add part).bytes = p.bytes ++ part.bytes := by
  cases part <;> rfl

theorem bytes_foldl_add (parts : List Part) (p : Program) :
    (parts.foldl Program.add p).bytes = p.bytes ++ parts.flatMap Part.bytes := by
  induction parts generalizing p with
  | nil => exact (List.append_nil _).symm
  | cons part parts ih =>
    rw [List.foldl_cons, ih, bytes_add, List.flatMap_cons, List.append_assoc]

/-- **A payload is the bytes of its parts** and the last tag. -/
theorem payloadOf_eq (parts : List Part) :
    payloadOf parts = parts.flatMap Part.bytes ++ [PartTag.finish.byte] := by
  show (parts.foldl Program.add {}).bytes ++ [PartTag.finish.byte] = _
  rw [bytes_foldl_add]
  rfl

theorem payloadOf_append (before : List Part) (p : Part) (after : List Part) :
    payloadOf (before ++ p :: after)
      = before.flatMap Part.bytes ++ (p.bytes ++ payloadOf after) := by
  simp only [payloadOf_eq, List.flatMap_append, List.flatMap_cons, List.append_assoc]

theorem extent_append (before : List Part) (p : Part) :
    extent (before ++ [p]) = extent before + p.bytes.length := by
  simp [extent]

/-! ## 2. Reading -/

/-- The length of a text, read again. -/
theorem readText_text (s : String) (rest : List UInt8) :
    readText (Instruction.wordBytes (UInt16.ofNat (encodeUtf8 s).length) ++ encodeUtf8 s ++ rest)
      = .ok (decodeUtf8Lossy ((encodeUtf8 s).take ((encodeUtf8 s).length % 0x10000)),
          (encodeUtf8 s).length % 0x10000 + 2) := by
  have hle := Nat.mod_le (encodeUtf8 s).length 0x10000
  have hlength : (encodeUtf8 s).length % 0x10000 ≤ (encodeUtf8 s ++ rest).length := by
    rw [List.length_append]
    omega
  simp only [Instruction.wordBytes, List.cons_append, List.nil_append, readText,
    Instruction.wordOfBytes_wordBytes, UInt16.toNat_ofNat']
  rw [if_pos hlength, List.take_append_of_le_length hle]

section

variable {front rest : List UInt8}

/-- The front of the part that a tag begins. -/
theorem readHead_text (s : String) :
    readHead (front ++ ((Part.text s).bytes ++ rest)) front.length
      = .ok (.text (decodeUtf8Lossy ((encodeUtf8 s).take ((encodeUtf8 s).length % 0x10000)))
          ((encodeUtf8 s).length % 0x10000 + 2)) := by
  have hbytes : (Part.text s).bytes ++ rest = PartTag.text.byte
      :: (Instruction.wordBytes (UInt16.ofNat (encodeUtf8 s).length) ++ encodeUtf8 s ++ rest) := rfl
  unfold readHead
  rw [List.drop_left, hbytes]
  show (readText _).map _ = _
  rw [readText_text]
  rfl

/-- **The front of a part** at its place. -/
theorem readHead_part (p : Part) (h : p.Short) :
    readHead (front ++ (p.bytes ++ rest)) front.length = .ok p.head := by
  cases p with
  | text s =>
    have hlength : (encodeUtf8 s).length % 0x10000 = (encodeUtf8 s).length := Nat.mod_eq_of_lt h
    rw [readHead_text, hlength, List.take_length, decodeUtf8Lossy_encodeUtf8]
    rfl
  | expression code | queryAssign code | query | command =>
    unfold readHead
    rw [List.drop_left]
    rfl

theorem readHead_last : readHead (front ++ [PartTag.finish.byte]) front.length = .ok .finish := by
  unfold readHead
  rw [List.drop_left]
  rfl

/-- **The part at an offset of a payload**, with the text or the stream that its reader takes. -/
def partAt? (payload : List UInt8) (offset : Nat) : Option Part :=
  let body := payload.drop (offset + 1)
  let stream := body.take (streamLength body)
  match readHead payload offset with
  | .ok (.text s _) => some (.text s)
  | .ok .expression => some (.expression stream)
  | .ok .queryAssign => some (.queryAssign stream)
  | .ok .query => some .query
  | .ok .command => some .command
  | _ => none

/-- Who reads a stream that ends with its first end comes past the same words if more follows. -/
theorem scan_append_of_whole {code : List UInt8}
    (h : ∃ is, decode code = .ok is ∧ code.length = 2 * is.length) (more : List UInt8) :
    .stop ∈ scan code ∧ code.length = 2 * (scan code).length
      ∧ scan (code ++ more) = scan code := by
  obtain ⟨is, hdecode, hlength⟩ := h
  rw [decode_eq] at hdecode
  split at hdecode
  · next hstop =>
    obtain rfl := Except.ok.inj hdecode
    have hscan := scan_take_append more hstop
    rw [← hlength, List.take_length] at hscan
    exact ⟨hstop, hlength, hscan⟩
  · cases hdecode

/-- The stream of a part is taken as a whole. -/
theorem take_streamLength_of_whole {code : List UInt8}
    (h : ∃ is, decode code = .ok is ∧ code.length = 2 * is.length) (more : List UInt8) :
    (code ++ more).take (streamLength (code ++ more)) = code := by
  obtain ⟨hstop, hlength, hscan⟩ := scan_append_of_whole h more
  rw [streamLength_eq, hscan, if_pos hstop, ← hlength, List.take_left]

/-- **A part is read back exactly if its text is short.** -/
theorem partAt?_eq_some_iff {p : Part} (h : p.Whole) :
    partAt? (front ++ (p.bytes ++ rest)) front.length = some p ↔ p.Short := by
  have hbody (tag : UInt8) (body : List UInt8) (hp : p.bytes = tag :: body) :
      (front ++ (p.bytes ++ rest)).drop (front.length + 1) = body ++ rest := by
    rw [hp, List.drop_append, Nat.add_sub_cancel_left, List.drop_of_length_le (Nat.le_succ _)]
    rfl
  cases p with
  | text s =>
    rw [partAt?, readHead_text]
    dsimp only
    constructor
    · intro hs
      have hle := length_le_of_decodeUtf8Lossy_take (Part.text.inj (Option.some.inj hs))
      show (encodeUtf8 s).length < 0x10000
      omega
    · intro hs
      rw [Nat.mod_eq_of_lt hs, List.take_length, decodeUtf8Lossy_encodeUtf8]
  | expression code | queryAssign code =>
    refine iff_of_true ?_ trivial
    rw [partAt?, readHead_part, hbody _ code rfl]
    · dsimp only [Part.head]
      rw [take_streamLength_of_whole h]
    · trivial
  | query | command =>
    refine iff_of_true ?_ trivial
    rw [partAt?, readHead_part]
    · rfl
    · trivial

end

end InstrumentFlow.Scpi
