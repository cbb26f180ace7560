import InstrumentFlow.Bytecode.Instruction
import InstrumentFlow.Error

/-!
# Instruction streams

A stream is a list of words, low byte first, up to and including the first end instruction.

* `encode` -- the bytes of instructions, with an end instruction if they lack one at their end;
* `decode` -- the instructions of a stream;
* `streamLength` -- the bytes that a stream takes.
-/

namespace InstrumentFlow.Bytecode

open Instruction

/-- The bytes of instructions as they stand. -/
def instructionBytes (is : List Instruction) : List UInt8 := is.flatMap fun i => wordBytes i.word

/-- **The bytes of a stream.** An end instruction is added unless the last one is an end. -/
def encode (is : List Instruction) : List UInt8 :=
  instructionBytes is ++ if is.getLast? = some stop then [] else wordBytes stop.word

/-- **The instructions up to the first end**, which is the last of them. -/
def decode : List UInt8 → Except EvalError (List Instruction)
  | low :: high :: rest =>
    let i := ofWord (wordOfBytes low high)
    if i = stop then .ok [i] else (decode rest).map (i :: ·)
  | _ => .error .unterminated

/-- The bytes up to and with the first end; without an end all bytes. -/
def streamLength : List UInt8 → Nat
  | low :: high :: rest =>
    if ofWord (wordOfBytes low high) = stop then 2 else 2 + streamLength rest
  | bytes => bytes.length

end InstrumentFlow.Bytecode
