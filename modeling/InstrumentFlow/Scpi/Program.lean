import InstrumentFlow.Bytecode.Listing
import InstrumentFlow.Text.Quoted
import InstrumentFlow.Text.Utf8

/-!
# SCPI programs

The payload of an SCPI component is a row of parts: a tag byte and what belongs to it. Parts with
an expression hold its instruction stream; the stream's own end instruction ends it.

* `PartTag` -- what a part does, and its byte;
* `Program` -- a payload under construction, with one method per part and `Program.finish`;
* `PartHead`, `readHead` -- the part at an offset, up to where its expression starts, if it has one;
* `partLines` -- the listing of a payload.
-/

namespace InstrumentFlow.Scpi

open Bytecode Text

/-! ## 1. Parts -/

inductive PartTag where
  | text
  /-- An expression whose text joins the command. -/
  | expression
  /-- A query whose answer is assigned to a target. -/
  | queryAssign
  | query
  | command
  | finish
  deriving DecidableEq, Repr

namespace PartTag

def byte : PartTag → UInt8
  | text => 1
  | expression => 2
  | queryAssign => 3
  | query => 4
  | command => 5
  | finish => 6

def ofByte? (b : UInt8) : Option PartTag :=
  [text, expression, queryAssign, query, command, finish].find? (·.byte == b)

end PartTag

/-! ## 2. Building -/

/-- The bytes of the parts so far. -/
structure Program where
  bytes : List UInt8 := []

namespace Program

/-- Adds a tag and what follows it. -/
def push (p : Program) (tag : PartTag) (body : List UInt8) : Program :=
  ⟨p.bytes ++ tag.byte :: body⟩

/-- Adds a text. Its length is written in 16 bits, its bytes all follow. -/
def text (p : Program) (s : String) : Program :=
  let bytes := encodeUtf8 s
  p.push .text (Instruction.wordBytes (UInt16.ofNat bytes.length) ++ bytes)

def expression (p : Program) (instructions : List UInt8) : Program :=
  p.push .expression instructions

def queryAssign (p : Program) (target : List UInt8) : Program := p.push .queryAssign target

def query (p : Program) : Program := p.push .query []

def command (p : Program) : Program := p.push .command []

/-- The payload, ended. -/
def finish (p : Program) : List UInt8 := (p.push .finish []).bytes

end Program

/-! ## 3. Reading -/

/-- The front of a part: all of it, or the tag of a part whose expression follows. -/
inductive PartHead where
  | text (s : String) (size : Nat)
  | expression
  | queryAssign
  | query
  | command
  | finish
  deriving DecidableEq, Repr

/-- The text of a part after its tag, and the bytes of length and text together. -/
def readText (body : List UInt8) : Except Defect (String × Nat) :=
  match body with
  | low :: high :: rest =>
    let length := (Instruction.wordOfBytes low high).toNat
    if length ≤ rest.length then .ok (decodeUtf8Lossy (rest.take length), length + 2)
    else .error .truncatedText
  | _ => .error .truncatedLength

/-- **The part at an offset of a payload.** -/
def readHead (payload : List UInt8) (offset : Nat) : Except Defect PartHead :=
  match payload.drop offset with
  | [] => .error (.partsEnd offset)
  | tag :: body =>
    match PartTag.ofByte? tag with
    | some .text => (readText body).map fun (s, size) => .text s size
    | some .expression => .ok .expression
    | some .queryAssign => .ok .queryAssign
    | some .query => .ok .query
    | some .command => .ok .command
    | some .finish => .ok .finish
    | none => .error (.unknownPart tag)

/-! ## 4. Listing -/

/-- The lines of a payload. A text that runs past the end is shown as empty and ends the listing. -/
def partLines : List UInt8 → List String
  | [] => []
  | tag :: body =>
    match PartTag.ofByte? tag with
    | some .text =>
      match body with
      | low :: high :: rest =>
        let length := (Instruction.wordOfBytes low high).toNat
        let shown := if length ≤ rest.length then decodeUtf8Lossy (rest.take length) else ""
        ("    STRING " ++ quoted shown) :: partLines (rest.drop length)
      | _ => ["    <truncated>"]
    | some .expression =>
      "    EXPR" :: (streamLines "      " 0 body ++ partLines (body.drop (streamLength body)))
    | some .queryAssign =>
      "    QUERY_WITH_ASSIGNMENT"
        :: (streamLines "      " 0 body ++ partLines (body.drop (streamLength body)))
    | some .query => "    QUERY" :: partLines body
    | some .command => "    COMMAND" :: partLines body
    | some .finish => ["    END"]
    | none => [s!"    <unknown part {tag}>"]
termination_by payload => payload.length
decreasing_by all_goals (simp only [List.length_drop, List.length_cons]; omega)

end InstrumentFlow.Scpi
