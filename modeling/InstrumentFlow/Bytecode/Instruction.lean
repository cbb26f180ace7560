import InstrumentFlow.Bytecode.Operation

/-!
# Instruction words

An instruction is one 16-bit word: the three high bits select what it does, the thirteen low bits
are its operand.

* `Instruction` -- the instructions of a property's expression;
* `Instruction.ofWord`, `Instruction.word` -- reading and writing a word; writing keeps the operand
  modulo `2 ^ 13`;
* `Instruction.read?` -- the word at a byte offset, low byte first.
-/

namespace InstrumentFlow.Bytecode

inductive Instruction where
  | pushConstant (index : UInt16)
  | pushInput (slot : UInt16)
  | pushLocal (index : UInt16)
  | pushGlobal (index : UInt16)
  | pushOutput (index : UInt16)
  | arrayElement
  | operation (index : UInt16)
  | stop
  deriving DecidableEq, Repr

namespace Instruction

/-- The count of operand bits. -/
def operandBits : UInt16 := 13

/-- The bits of a word that hold the operand. -/
def operandMask : UInt16 := 0x1FFF

def ofWord (word : UInt16) : Instruction :=
  let operand := word &&& operandMask
  match (word >>> operandBits).toNat with
  | 0 => pushConstant operand
  | 1 => pushInput operand
  | 2 => pushLocal operand
  | 3 => pushGlobal operand
  | 4 => pushOutput operand
  | 5 => arrayElement
  | 6 => operation operand
  | _ => stop

/-- The number in the high bits and the operand. -/
def parts : Instruction → UInt16 × UInt16
  | pushConstant operand => (0, operand)
  | pushInput operand => (1, operand)
  | pushLocal operand => (2, operand)
  | pushGlobal operand => (3, operand)
  | pushOutput operand => (4, operand)
  | arrayElement => (5, 0)
  | operation operand => (6, operand)
  | stop => (7, 0)

def word (i : Instruction) : UInt16 :=
  (i.parts.1 <<< operandBits) ||| (i.parts.2 &&& operandMask)

/-- The two bytes of a word, low byte first. -/
def wordBytes (w : UInt16) : List UInt8 := [w.toUInt8, (w >>> 8).toUInt8]

/-- The word of two bytes, low byte first. -/
def wordOfBytes (low high : UInt8) : UInt16 := low.toUInt16 ||| (high.toUInt16 <<< 8)

/-- The instruction at a byte offset, if both of its bytes are there. -/
def read? (bytes : List UInt8) (offset : Nat) : Option Instruction :=
  match bytes.drop offset with
  | low :: high :: _ => some (ofWord (wordOfBytes low high))
  | _ => none

end Instruction

end InstrumentFlow.Bytecode
