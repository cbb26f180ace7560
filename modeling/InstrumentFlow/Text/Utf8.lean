import InstrumentFlow.Text.Basic

/-!
# UTF-8

Texts as bytes and back:

* `encodeUtf8` -- the bytes of a text;
* `Scan`, `scan` -- the first character of a byte list, or the length of the piece at its front
  that is no character: the longest start of a character, at least one byte;
* `decodeUtf8?` -- the text of well-formed bytes;
* `decodeUtf8Lossy` -- the same with the replacement character for every piece that is no character;
* `findByte?` -- the first byte of a text at which another one starts.
-/

namespace InstrumentFlow.Text

/-! ## 1. Writing -/

/-- The bytes of one character. -/
def encodeChar (c : Char) : List UInt8 :=
  let n := c.toNat
  let tail (unit : Nat) : UInt8 := UInt8.ofNat (0x80 + n / unit % 0x40)
  if n < 0x80 then [UInt8.ofNat n]
  else if n < 0x800 then [UInt8.ofNat (0xC0 + n / 0x40), tail 1]
  else if n < 0x10000 then [UInt8.ofNat (0xE0 + n / 0x1000), tail 0x40, tail 1]
  else [UInt8.ofNat (0xF0 + n / 0x40000), tail 0x1000, tail 0x40, tail 1]

def encodeUtf8 (s : String) : List UInt8 := s.toList.flatMap encodeChar

/-! ## 2. Reading -/

/-- What stands at the front of a byte list: a character of `size` bytes, or `size` bytes that
    form none. -/
inductive Scan where
  | char (c : Char) (size : Nat)
  | broken (size : Nat)
  deriving DecidableEq, Repr

/-- How a first byte goes on: the count of bytes that follow it, the bits it gives, and the range
    of the second byte, which excludes over-long forms, surrogates and numbers too large. -/
def leadByte? (b : UInt8) : Option (Nat × Nat × UInt8 × UInt8) :=
  if b < 0x80 then some (0, b.toNat, 0x80, 0xBF)
  else if b < 0xC2 then none
  else if b < 0xE0 then some (1, b.toNat - 0xC0, 0x80, 0xBF)
  else if b = 0xE0 then some (2, 0, 0xA0, 0xBF)
  else if b = 0xED then some (2, 0xD, 0x80, 0x9F)
  else if b < 0xF0 then some (2, b.toNat - 0xE0, 0x80, 0xBF)
  else if b = 0xF0 then some (3, 0, 0x90, 0xBF)
  else if b < 0xF4 then some (3, b.toNat - 0xF0, 0x80, 0xBF)
  else if b = 0xF4 then some (3, 4, 0x80, 0x8F)
  else none

/-- Reads the bytes that follow a first byte; `size` bytes have been read and give `bits`. -/
def scanTail : Nat → Nat → UInt8 → UInt8 → Nat → List UInt8 → Scan
  | 0, bits, _, _, size, _ => .char (Char.ofNat bits) size
  | _ + 1, _, _, _, size, [] => .broken size
  | more + 1, bits, low, high, size, b :: rest =>
    if low ≤ b ∧ b ≤ high then
      scanTail more (bits * 0x40 + (b.toNat - 0x80)) 0x80 0xBF (size + 1) rest
    else .broken size

/-- The front of a byte list; `none` at its end. -/
def scan : List UInt8 → Option Scan
  | [] => none
  | b :: rest =>
    match leadByte? b with
    | none => some (.broken 1)
    | some (more, bits, low, high) => some (scanTail more bits low high 1 rest)

/-- Every scan takes at least one byte. -/
def Scan.size : Scan → Nat
  | .char _ n => n
  | .broken n => n

/-- All scans of a byte list in order. The first argument bounds their number by the byte count. -/
def scansWithin : Nat → List UInt8 → List Scan
  | 0, _ => []
  | more + 1, bytes =>
    match scan bytes with
    | none => []
    | some s => s :: scansWithin more (bytes.drop s.size)

def scans (bytes : List UInt8) : List Scan := scansWithin bytes.length bytes

def Scan.char? : Scan → Option Char
  | .char c _ => some c
  | .broken _ => none

/-- The character shown for a scan: itself, or the replacement character. -/
def Scan.shown : Scan → Char
  | .char c _ => c
  | .broken _ => Char.ofNat 0xFFFD

/-- The text of well-formed bytes. -/
def decodeUtf8? (bytes : List UInt8) : Option String :=
  ((scans bytes).mapM Scan.char?).map String.ofList

/-- The text of any bytes, with the replacement character where they form none. -/
def decodeUtf8Lossy (bytes : List UInt8) : String :=
  String.ofList ((scans bytes).map Scan.shown)

/-! ## 3. Searching -/

/-- The first byte of a text at which the bytes of another one start. -/
def findByte? (haystack needle : String) : Option Nat :=
  find? (encodeUtf8 needle) (encodeUtf8 haystack)

end InstrumentFlow.Text
