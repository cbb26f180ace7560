import InstrumentFlow.Bytecode.Stream
import InstrumentFlow.Expression.Operate
import InstrumentFlow.Expression.Stack

/-!
# Evaluating expressions

* `Scope` -- what an expression can read: constants, the slots of instances, global and native
  variables;
* `resolve` -- what a write target holds;
* `popValue` -- the top of the stack, resolved;
* `step` -- one instruction;
* `run` -- a stream up to its end;
* `evaluate` -- the value of a stream, and `evaluateTarget` -- the write target it names.
-/

namespace InstrumentFlow.Expression

open Bytecode

/-! ## 1. What can be read -/

/-- The slots of one instance: inputs first, then local variables. -/
structure Slots where
  values : Array Value
  inputCount : Nat

structure Scope where
  constants : List Literal
  slots? : InstanceId → Option Slots
  globals : Array Value
  native : UInt32 → Value

/-- **What a write target holds**; every other value stands for itself. -/
def resolve (scope : Scope) (h : Heap) (v : Value) : Fallible Value :=
  match v with
  | .slot i index =>
    match (scope.slots? i).bind (·.values[index]?) with
    | some held => .ok held
    | none => .error .danglingReference
  | .global index =>
    match scope.globals[index]? with
    | some held => .ok held
    | none => .error .danglingReference
  | .element a index =>
    let elements := h.elements a
    match elements[index]? with
    | some held => .ok held
    | none => .error (.indexOutOfBounds index elements.size)
  | .native id => .ok (scope.native id)
  | v => .ok v

/-- Brings a result into an evaluation. -/
def lift (x : Fallible α) : Eval α :=
  match x with
  | .ok a => pure a
  | .error e => throw e

/-- Takes the top value and resolves it. -/
def popValue (scope : Scope) : Eval Value := do
  let v ← popRaw
  lift (resolve scope (← get).heap v)

/-! ## 2. Instructions -/

/-- The place in which an expression runs. -/
structure Context where
  scope : Scope
  self : InstanceId
  iterators : List Int32

/-- The slots of the instance itself. -/
def ownSlots (c : Context) : Eval Slots :=
  match c.scope.slots? c.self with
  | some slots => pure slots
  | none => throw .danglingReference

/-- Pushes a constant; an array constant is a new array each time. -/
def pushConstant (c : Context) (index : UInt16) : Eval Unit :=
  match c.scope.constants[index.toNat]? with
  | none => throw (.constantOutOfRange index)
  | some literal => do
    let w ← get
    let (v, heap) := literal.materialize w.heap
    set { w with heap }
    pushValue v

/-- Pushes the content of an input. -/
def pushInput (c : Context) (slot : UInt16) : Eval Unit := do
  let slots ← ownSlots c
  if slot.toNat < slots.inputCount then
    match slots.values[slot.toNat]? with
    | some v => pushValue v
    | none => throw (.inputOutOfRange slot)
  else throw (.inputOutOfRange slot)

/-- Pushes a local variable as a write target. -/
def pushLocal (c : Context) (index : UInt16) : Eval Unit := do
  let slots ← ownSlots c
  let slot := slots.inputCount + index.toNat
  if slot < slots.values.size then pushValue (.slot c.self slot)
  else throw (.localOutOfRange index)

/-- The global or native variable with a number: native variables follow the global ones and count
    from 1. -/
def globalTarget (globalCount : Nat) (index : UInt16) : Value :=
  if index.toNat < globalCount then .global index.toNat
  else .native (UInt32.ofNat (index.toNat - globalCount + 1))

/-- Replaces an array and an index by the element. -/
def selectElement (c : Context) : Eval Unit := do
  let indexValue ← popValue c.scope
  let arrayValue ← popValue c.scope
  match arrayValue with
  | .array a =>
    match indexValue.index? with
    | none => throw .integerIndexExpected
    | some index =>
      let size := ((← get).heap.elements a).size
      if index < 0 ∨ size ≤ index then throw (.indexOutOfBounds index size)
      else pushValue (.element a index.toNat)
  | _ => throw .arrayExpected

/-- Applies an operation to the values on top of the stack. -/
def applyOperation (c : Context) (op : Operation) : Eval Unit := do
  match op.arity with
  | 1 =>
    let a ← popValue c.scope
    pushValue (← lift (unary (← get).heap c.iterators op a))
  | 2 =>
    let b ← popValue c.scope
    let a ← popValue c.scope
    pushValue (← lift (binary (← get).heap op a b))
  | _ =>
    let whenFalse ← popValue c.scope
    let whenTrue ← popValue c.scope
    let condition ← popValue c.scope
    pushValue (if condition.toBool (← get).heap then whenTrue else whenFalse)

/-- **One instruction** other than the end. -/
def step (c : Context) (i : Instruction) : Eval Unit :=
  match i with
  | .pushConstant index => pushConstant c index
  | .pushInput slot => pushInput c slot
  | .pushLocal index => pushLocal c index
  | .pushGlobal index => pushValue (globalTarget c.scope.globals.size index)
  | .pushOutput index => pushValue (.output index)
  | .arrayElement => selectElement c
  | .operation index =>
    match Operation.ofIndex? index.toNat with
    | some op => applyOperation c op
    | none => throw (.unknownOperation index)
  | .stop => pure ()

/-! ## 3. Streams -/

/-- Runs a stream up to its end and counts the bytes that it takes. -/
def run (c : Context) : List UInt8 → Eval Nat
  | low :: high :: rest =>
    let i := Instruction.ofWord (Instruction.wordOfBytes low high)
    if i = .stop then pure 2
    else do
      step c i
      return 2 + (← run c rest)
  | _ => throw .unterminated

/-- The only value on the stack. -/
def singleResult : Eval Value := do
  let depth := (← get).stack.depth
  if depth = 1 then popRaw else throw (.malformedStack depth)

/-- Clears the stack, runs a stream and takes the only value. -/
def runToResult (c : Context) (bytes : List UInt8) : Eval (Value × Nat) := do
  modify fun w => { w with stack := w.stack.cleared }
  let consumed ← run c bytes
  return (← singleResult, consumed)

/-- **The value of a stream**, and the count of bytes that it takes. -/
def evaluate (c : Context) (bytes : List UInt8) : Eval (Value × Nat) := do
  let (v, consumed) ← runToResult c bytes
  return (← lift (resolve c.scope (← get).heap v), consumed)

/-- **The write target that a stream names**, and the count of bytes that it takes. -/
def evaluateTarget (c : Context) (bytes : List UInt8) : Eval (Value × Nat) := do
  let (v, consumed) ← runToResult c bytes
  if v.isAssignable then return (v, consumed) else throw (.notAssignable v.kind)

end InstrumentFlow.Expression
