import InstrumentFlow.Error
import InstrumentFlow.Value.Basic

/-!
# The operand stack

* `Stack` -- values, the top first, and the greatest depth;
* `Stack.push?`, `Stack.depth`, `Stack.cleared`;
* `Workspace` -- what an evaluation changes: the stack and the array storages;
* `Eval` -- evaluations; a failure keeps the workspace as it was at that moment;
* `pushValue`, `popRaw` -- the two operations on the stack as evaluations.
-/

namespace InstrumentFlow.Expression

structure Stack where
  values : List Value := []
  capacity : Nat

namespace Stack

def depth (s : Stack) : Nat := s.values.length

/-- The stack with one more value; a full stack takes none. -/
def push? (s : Stack) (v : Value) : Option Stack :=
  if s.depth < s.capacity then some { s with values := v :: s.values } else none

def cleared (s : Stack) : Stack := { s with values := [] }

end Stack

structure Workspace where
  stack : Stack
  heap : Heap

abbrev Eval := EStateM EvalError Workspace

def pushValue (v : Value) : Eval Unit := do
  let w ← get
  match w.stack.push? v with
  | some stack => set { w with stack }
  | none => throw (.stackOverflow w.stack.capacity)

/-- Takes the top value as it is. -/
def popRaw : Eval Value := do
  let w ← get
  match w.stack.values with
  | v :: values =>
    set { w with stack := { w.stack with values } }
    return v
  | [] => throw .stackUnderflow

end InstrumentFlow.Expression
