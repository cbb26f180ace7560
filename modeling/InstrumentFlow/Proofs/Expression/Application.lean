import InstrumentFlow.Expression.Evaluate
import InstrumentFlow.Proofs.Activity

/-!
# Operations on the stack

An operation on two values takes them off the stack, resolves them, and leaves what they come to. So
what holds of the operation on values holds of it wherever it stands in an expression.

* `Workspace.holding` -- a workspace with other values on its stack;
* `pushValue_eq`, `popValue_eq` -- a value is put on the stack, and one is taken off it;
* `Operands` -- two values on top of the stack, and what they resolve to;
* `operator` -- the instruction that applies an operation;
* `leaving` -- what is left on the stack of the outcome of an operation;
* `Operands.step` -- **an operation on two values is an operation on what they resolve to**;
* `literalContext` -- an expression of constants and global variables.
-/

namespace InstrumentFlow.Expression

open Bytecode

/-- A workspace with other values on its stack. -/
def Workspace.holding (w : Workspace) (values : List Value) : Workspace :=
  { w with stack := { w.stack with values } }

section

variable {c : Context} {w : Workspace}

/-- A value finds room on the stack. -/
theorem pushValue_eq {v : Value} (hroom : w.stack.depth < w.stack.capacity) :
    pushValue v w = .ok () (w.holding (v :: w.stack.values)) := by
  unfold pushValue Stack.push?
  rw [get_bind_apply, if_pos hroom]
  rfl

/-- The value on top is taken off the stack and resolved. -/
theorem popValue_eq {u v : Value} {below : List Value} (hv : w.stack.values = v :: below)
    (hr : resolve c.scope w.heap v = .ok u) :
    popValue c.scope w = .ok u (w.holding below) := by
  have hpop : popRaw w = .ok v (w.holding below) := by
    unfold popRaw
    rw [get_bind_apply, hv]
    rfl
  unfold popValue
  rw [bind_of_ok hpop, get_bind_apply]
  show lift (resolve c.scope w.heap v) (w.holding below) = _
  rw [hr]
  rfl

/-- **Two operands**: the values on top of the stack resolve to them, the second one on top. -/
structure Operands (c : Context) (w : Workspace) (a b : Value) (below : List Value) : Prop where
  stack : ∃ u v, w.stack.values = v :: u :: below
    ∧ resolve c.scope w.heap u = .ok a ∧ resolve c.scope w.heap v = .ok b
  room : below.length < w.stack.capacity

/-- What an operation leaves with this outcome: its value on the rest of the stack, or the failure
    and the rest alone. -/
def leaving (w : Workspace) (below : List Value) :
    Fallible Value → EStateM.Result EvalError Workspace Unit
  | .ok v => .ok () (w.holding (v :: below))
  | .error err => .error err (w.holding below)

/-- The instruction that applies an operation. -/
def operator (op : Operation) : Instruction := .operation (UInt16.ofNat op.index)

theorem ofIndex?_toNat_index (op : Operation) :
    Operation.ofIndex? (UInt16.ofNat op.index).toNat = some op := by
  cases op <;> decide

/-- **An operation on two values is an operation on what they resolve to**, wherever it stands in an
    expression. -/
theorem Operands.step {a b : Value} {below : List Value} (h : Operands c w a b below)
    {op : Operation} (harity : op.arity = 2) :
    step c (operator op) w = leaving w below (binary w.heap op a b) := by
  obtain ⟨u, v, hvalues, hu, hv⟩ := h.stack
  have hb : popValue c.scope w = .ok b (w.holding (u :: below)) := popValue_eq hvalues hv
  have ha : popValue c.scope (w.holding (u :: below)) = .ok a (w.holding below) :=
    popValue_eq rfl hu
  have happly : applyOperation c op = (do
      let b ← popValue c.scope
      let a ← popValue c.scope
      pushValue (← lift (binary (← get).heap op a b))) := by
    unfold applyOperation
    rw [harity]
    rfl
  simp only [operator, Expression.step, ofIndex?_toNat_index]
  rw [happly, bind_of_ok hb, bind_of_ok ha, get_bind_apply]
  show (lift (binary w.heap op a b) >>= fun r => pushValue r) (w.holding below) = _
  cases binary w.heap op a b with
  | ok r => exact pushValue_eq h.room
  | error err => rfl

end

/-- An expression with these constants and global variables, in an instance without slots. -/
def literalContext (constants : List Literal) (globals : Array Value) : Context where
  scope := ⟨constants, fun _ => none, globals, fun _ => .undefined⟩
  self := ⟨0, 0⟩
  iterators := []

end InstrumentFlow.Expression
