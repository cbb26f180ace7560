import InstrumentFlow.Asset.Validate
import InstrumentFlow.Text.Utf8

/-!
# Definitions as packed bytes

A compact form without names. Whole numbers take one byte up to 250 and otherwise a marker byte
with two, four, eight or sixteen bytes, low byte first; signed numbers are folded onto the whole
numbers; lists and texts start with their length; alternatives start with their number.

* `putNat`, `getNat` -- whole numbers, where a reader fixes the widest form it takes;
* `foldInt`, `unfoldInt` -- signed numbers as whole ones;
* one writer and one reader per record;
* `Definition.toBytes`, `Definition.ofBytes` -- whole definitions. Bytes after a definition are
  ignored.
-/

namespace InstrumentFlow

open Numeric (twoTo)

namespace Packed

/-! ## 1. Numbers -/

/-- The `width` low bytes of a number, lowest first. -/
def putFixed : Nat → Nat → List UInt8
  | 0, _ => []
  | width + 1, n => UInt8.ofNat n :: putFixed width (n / 256)

/-- A whole number in its shortest form. -/
def putNat (n : Nat) : List UInt8 :=
  if n < 251 then [UInt8.ofNat n]
  else if n < twoTo 16 then 251 :: putFixed 2 n
  else if n < twoTo 32 then 252 :: putFixed 4 n
  else if n < twoTo 64 then 253 :: putFixed 8 n
  else 254 :: putFixed 16 n

/-- Signed numbers in the order 0, -1, 1, -2, … -/
def foldInt (i : Int) : Nat := if i < 0 then (-2 * i - 1).toNat else (2 * i).toNat

def unfoldInt (n : Nat) : Int := if n % 2 = 0 then n / 2 else -(n / 2 : Nat) - 1

/-- A reader takes what it reads from the front of the bytes and gives the rest. -/
abbrev Reader (α : Type) := List UInt8 → Option (α × List UInt8)

/-- The number of `width` bytes, lowest first. -/
def getFixed : Nat → Reader Nat
  | 0, bytes => some (0, bytes)
  | _ + 1, [] => none
  | width + 1, b :: bytes =>
    match getFixed width bytes with
    | some (n, rest) => some (b.toNat + 256 * n, rest)
    | none => none

/-- The count of bytes after a marker byte. -/
def markerWidth? (marker : UInt8) : Option Nat :=
  if marker = 251 then some 2
  else if marker = 252 then some 4
  else if marker = 253 then some 8
  else if marker = 254 then some 16
  else none

/-- A whole number, in any form of at most `widest` bytes. -/
def getNat (widest : Nat) : Reader Nat
  | [] => none
  | b :: bytes =>
    if b < 251 then some (b.toNat, bytes)
    else
      match markerWidth? b with
      | some width => if width ≤ widest then getFixed width bytes else none
      | none => none

/-! ## 2. Small things -/

def Reader.map (f : α → β) (r : Reader α) : Reader β := fun bytes =>
  (r bytes).map fun (a, rest) => (f a, rest)

def getByte : Reader UInt8
  | [] => none
  | b :: rest => some (b, rest)

def putWord16 (n : UInt16) : List UInt8 := putNat n.toNat

def getWord16 : Reader UInt16 := Reader.map UInt16.ofNat (getNat 2)

/-- Numbers of alternatives take at most four bytes. -/
def getTag : Reader Nat := getNat 4

def getLength : Reader Nat := getNat 8

def putBoolean (b : Bool) : List UInt8 := [if b then 1 else 0]

def getBoolean : Reader Bool
  | [] => none
  | b :: rest => if b = 0 then some (false, rest) else if b = 1 then some (true, rest) else none

def putText (s : String) : List UInt8 :=
  let bytes := Text.encodeUtf8 s
  putNat bytes.length ++ bytes

def getText : Reader String := fun bytes =>
  match getLength bytes with
  | none => none
  | some (length, rest) =>
    if rest.length < length then none
    else (Text.decodeUtf8? (rest.take length)).map fun s => (s, rest.drop length)

/-- The same reader a number of times. -/
def getMany (get : Reader α) : Nat → Reader (List α)
  | 0, bytes => some ([], bytes)
  | more + 1, bytes =>
    match get bytes with
    | none => none
    | some (a, rest) =>
      match getMany get more rest with
      | none => none
      | some (as, rest) => some (a :: as, rest)

def putList (put : α → List UInt8) (items : List α) : List UInt8 :=
  putNat items.length ++ items.flatMap put

def getList (get : Reader α) : Reader (List α) := fun bytes =>
  match getLength bytes with
  | none => none
  | some (length, rest) => getMany get length rest

def putBytes (bytes : List UInt8) : List UInt8 := putList (fun b => [b]) bytes

def getBytes : Reader (List UInt8) := getList getByte

def putOptional (put : α → List UInt8) : Option α → List UInt8
  | none => [0]
  | some a => 1 :: put a

def getOptional (get : Reader α) : Reader (Option α)
  | [] => none
  | b :: rest =>
    if b = 0 then some (none, rest)
    else if b = 1 then Reader.map some get rest
    else none

end Packed

open Packed

/-! ## 3. Literals -/

mutual

def Literal.pack : Literal → List UInt8
  | .undefined => putNat 0
  | .null => putNat 1
  | .int i => putNat 2 ++ putNat (foldInt i.toInt)
  | .float x => putNat 3 ++ putFixed 4 x.bits.toNat
  | .double x => putNat 4 ++ putFixed 8 x.bits.toNat
  | .boolean b => putNat 5 ++ putBoolean b
  | .string s => putNat 6 ++ putText s
  | .array items => putNat 7 ++ putNat items.length ++ Literal.packList items

/-- The bytes of a list of literals, without its length. -/
def Literal.packList : List Literal → List UInt8
  | [] => []
  | l :: ls => l.pack ++ Literal.packList ls

end

/-- A literal, following at most `depth` arrays inside each other. -/
def Literal.unpackWithin : Nat → Reader Literal
  | 0, _ => none
  | depth + 1, bytes =>
    match getTag bytes with
    | none => none
    | some (tag, rest) =>
      match tag with
      | 0 => some (.undefined, rest)
      | 1 => some (.null, rest)
      | 2 => Reader.map (fun n => .int (Int32.ofInt (unfoldInt n))) (getNat 4) rest
      | 3 => Reader.map (fun n => .float ⟨BitVec.ofNat _ n⟩) (getFixed 4) rest
      | 4 => Reader.map (fun n => .double ⟨BitVec.ofNat _ n⟩) (getFixed 8) rest
      | 5 => Reader.map .boolean getBoolean rest
      | 6 => Reader.map .string getText rest
      | 7 => Reader.map .array (getList (Literal.unpackWithin depth)) rest
      | _ => none

/-- A literal. Every array takes at least one byte of its own, so the bytes bound the nesting. -/
def Literal.unpack : Reader Literal := fun bytes => Literal.unpackWithin (bytes.length + 1) bytes

/-! ## 4. Components -/

namespace Kind

/-- The kinds in the order of their numbers, without the last, which is the host's. -/
def numbered : List Kind :=
  [start, finish, output, callAction, evalExpr, setVariable, isTrue, constant, log, delay, loop,
    error, catchError, noop, scpi]

def pack : Kind → List UInt8
  | host code => putNat numbered.length ++ putWord16 code
  | k => putNat (numbered.idxOf k)

def unpack : Reader Kind := fun bytes =>
  match getTag bytes with
  | none => none
  | some (tag, rest) =>
    if tag = numbered.length then Reader.map host getWord16 rest
    else
      match numbered[tag]? with
      | some k => some (k, rest)
      | none => none

end Kind

def Connection.pack (c : Connection) : List UInt8 :=
  putWord16 c.targetComponent ++ putWord16 c.targetInput ++ putBoolean c.isSequence

def Connection.unpack : Reader Connection := fun bytes => do
  let (component, rest) ← getWord16 bytes
  let (input, rest) ← getWord16 rest
  let (sequence, rest) ← getBoolean rest
  some (⟨component, input, sequence⟩, rest)

def Output.pack (o : Output) : List UInt8 :=
  putBoolean o.isSequence ++ putList Connection.pack o.connections

def Output.unpack : Reader Output := fun bytes => do
  let (sequence, rest) ← getBoolean bytes
  let (connections, rest) ← getList Connection.unpack rest
  some (⟨sequence, connections⟩, rest)

def Property.pack (p : Property) : List UInt8 := putBytes p.instructions

def Property.unpack : Reader Property := Reader.map Property.mk getBytes

def Component.pack (c : Component) : List UInt8 :=
  c.kind.pack ++ putBoolean c.breakpoint ++ putList putWord16 c.inputs
    ++ putList Property.pack c.properties ++ putList Output.pack c.outputs
    ++ putOptional putWord16 c.catchOutput ++ putBytes c.payload

def Component.unpack : Reader Component := fun bytes => do
  let (kind, rest) ← Kind.unpack bytes
  let (breakpoint, rest) ← getBoolean rest
  let (inputs, rest) ← getList getWord16 rest
  let (properties, rest) ← getList Property.unpack rest
  let (outputs, rest) ← getList Output.unpack rest
  let (catchOutput, rest) ← getOptional getWord16 rest
  let (payload, rest) ← getBytes rest
  some (⟨kind, breakpoint, inputs, properties, outputs, catchOutput, payload⟩, rest)

/-! ## 5. Flows and definitions -/

def Flow.pack (f : Flow) : List UInt8 :=
  putText f.name ++ putList Component.pack f.components ++ putBytes f.inputFlags
    ++ putList Literal.pack f.locals

def Flow.unpack : Reader Flow := fun bytes => do
  let (name, rest) ← getText bytes
  let (components, rest) ← getList Component.unpack rest
  let (inputFlags, rest) ← getBytes rest
  let (locals, rest) ← getList Literal.unpack rest
  some (⟨name, components, inputFlags, locals⟩, rest)

namespace Definition

/-- **The bytes of a definition.** -/
def toBytes (d : Definition) : List UInt8 :=
  putList Flow.pack d.flows ++ putList Literal.pack d.constants ++ putList Literal.pack d.globals

def unpack : Reader Definition := fun bytes => do
  let (flows, rest) ← getList Flow.unpack bytes
  let (constants, rest) ← getList Literal.unpack rest
  let (globals, rest) ← getList Literal.unpack rest
  some (⟨flows, constants, globals⟩, rest)

/-- **A sound definition from bytes.** -/
def ofBytes (bytes : List UInt8) : Except AssetError Definition :=
  match unpack bytes with
  | some (d, _) => d.validate.map fun _ => d
  | none => .error .decode

end Definition

end InstrumentFlow
