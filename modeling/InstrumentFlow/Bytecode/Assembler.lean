import InstrumentFlow.Bytecode.Stream

/-!
# Assembling expressions

* `Assembler` -- the instructions written so far;
* one method per instruction, each adding one at the end;
* `Assembler.finish` -- the bytes of the expression.
-/

namespace InstrumentFlow.Bytecode

structure Assembler where
  instructions : List Instruction := []

namespace Assembler

/-- Adds an instruction at the end. -/
def push (a : Assembler) (i : Instruction) : Assembler := ⟨a.instructions ++ [i]⟩

def constant (a : Assembler) (index : UInt16) : Assembler := a.push (.pushConstant index)

def input (a : Assembler) (slot : UInt16) : Assembler := a.push (.pushInput slot)

def «local» (a : Assembler) (index : UInt16) : Assembler := a.push (.pushLocal index)

def global (a : Assembler) (index : UInt16) : Assembler := a.push (.pushGlobal index)

def output (a : Assembler) (index : UInt16) : Assembler := a.push (.pushOutput index)

def element (a : Assembler) : Assembler := a.push .arrayElement

def apply (a : Assembler) (op : Operation) : Assembler :=
  a.push (.operation (UInt16.ofNat op.index))

def finish (a : Assembler) : List UInt8 := encode a.instructions

end Assembler

end InstrumentFlow.Bytecode
