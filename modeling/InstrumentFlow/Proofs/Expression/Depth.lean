import InstrumentFlow.Expression.Evaluate
import InstrumentFlow.Proofs.Activity
import InstrumentFlow.Proofs.Bytecode.Scan

/-!
# What an instruction does to the stack

How many values an instruction takes off the stack is written in the instruction itself, and it
leaves one. What the values are decides whether it succeeds, never how deep the stack is then.

* `Instruction.operands`, `Instruction.ends` -- what can be read from an instruction;
* `EvalError.OfPlace`, `EvalError.OfOperands` -- the failures of instructions by what they lack;
* `Taken` -- the values of an instruction are taken, and its result is not there yet;
* `Breaks` -- how an instruction fails, and what it leaves on the stack;
* `Leaves` -- what an instruction leaves that succeeds;
* `yields_step` -- **every instruction does one or the other**.
-/

namespace InstrumentFlow

open Bytecode

/-! ## 1. Instructions -/

namespace Bytecode.Instruction

/-- **The count of values that an instruction takes off the stack.** -/
def operands : Instruction → Nat
  | arrayElement => 2
  | operation index => ((Operation.ofIndex? index.toNat).map Operation.arity).getD 0
  | _ => 0

/-- At an end, and at an operation that does not exist, a stream goes no further. -/
def ends : Instruction → Bool
  | stop => true
  | operation index => (Operation.ofIndex? index.toNat).isNone
  | _ => false

end Bytecode.Instruction

theorem Bytecode.Operation.arity_cases (op : Operation) :
    op.arity = 1 ∨ op.arity = 2 ∨ op.arity = 3 := by cases op <;> simp [Operation.arity]

/-! ## 2. Failures -/

namespace EvalError

/-- What the instruction names is not there. -/
def OfPlace : EvalError → Prop
  | constantOutOfRange _ | inputOutOfRange _ | localOutOfRange _ | danglingReference => True
  | _ => False

/-- **The instruction fails by itself**: its operands are there and it does not take them. -/
def OfOperands : EvalError → Prop
  | arrayExpected | integerIndexExpected | indexOutOfBounds _ _ | iteratorOutOfRange _
  | divisionByZero _ | unsupportedOperands _ _ | endlessArray => True
  | _ => False

/-- What a write target that leads nowhere comes to. -/
def OfTarget : EvalError → Prop
  | danglingReference | indexOutOfBounds _ _ => True
  | _ => False

/-- **The stack is too deep or not deep enough.** -/
def OfDepth : EvalError → Prop
  | stackUnderflow | stackOverflow _ | malformedStack _ => True
  | _ => False

variable {err : EvalError}

theorem OfPlace.not_ofDepth (h : err.OfPlace) : ¬ err.OfDepth := by
  cases err <;> first | exact id | cases h

theorem OfOperands.not_ofDepth (h : err.OfOperands) : ¬ err.OfDepth := by
  cases err <;> first | exact id | cases h

theorem OfTarget.not_ofDepth (h : err.OfTarget) : ¬ err.OfDepth := by
  cases err <;> first | exact id | cases h

theorem OfPlace.not_ofOperands (h : err.OfPlace) : ¬ err.OfOperands := by
  cases err <;> first | exact id | cases h

end EvalError

namespace Expression

theorem ofTarget_resolve {scope : Scope} {h : Heap} {v : Value} {err : EvalError}
    (he : resolve scope h v = .error err) : err.OfTarget := by
  unfold resolve at he
  split at he
  · split at he <;> cases he
    trivial
  · split at he <;> cases he
    trivial
  · dsimp only at he
    split at he <;> cases he
    trivial
  · cases he
  · cases he

theorem ofOperands_elementary {op : Operation} {a : Value} {err : EvalError}
    (he : elementary op a = .error err) : err.OfOperands := by
  unfold elementary at he
  split at he <;> cases he
  trivial

theorem ofOperands_arithmetic {op : Operation} {a b : Value} {err : EvalError}
    (he : arithmetic op a b = .error err) : err.OfOperands := by
  unfold arithmetic at he
  split at he
  · cases he
    trivial
  · cases he
  · cases he
  · split at he <;> cases he
    trivial

theorem ofOperands_unary {h : Heap} {iterators : List Int32} {op : Operation} {a : Value}
    {err : EvalError} (he : unary h iterators op a = .error err) : err.OfOperands := by
  unfold unary at he
  split at he
  case h_1 =>
    split at he <;> cases he
    trivial
  case h_7 =>
    dsimp only at he
    split at he <;> cases he
    trivial
  case h_8 | h_9 | h_10 => exact ofOperands_elementary he
  all_goals
    cases he <;> trivial

theorem ofOperands_concatenate {h : Heap} {a b : Value} {err : EvalError}
    (he : concatenate h a b = .error err) : err.OfOperands := by
  unfold concatenate at he
  cases hs : h.text? a with
  | none =>
    rw [hs] at he
    cases he
    trivial
  | some s =>
    cases ht : h.text? b with
    | none =>
      rw [hs, ht] at he
      cases he
      trivial
    | some t =>
      rw [hs, ht] at he
      cases he

theorem ofOperands_equal {h : Heap} {a b : Value} {g : Bool → Value} {err : EvalError}
    (he : (orEndless (h.equal? a b)).map g = .error err) : err.OfOperands := by
  cases hx : h.equal? a b <;> rw [hx] at he <;> cases he
  trivial

theorem ofOperands_binary {h : Heap} {op : Operation} {a b : Value} {err : EvalError}
    (he : binary h op a b = .error err) : err.OfOperands := by
  unfold binary at he
  split at he
  case h_1 =>
    split at he
    · exact ofOperands_concatenate he
    · exact ofOperands_arithmetic he
  case h_11 | h_12 => exact ofOperands_equal he
  all_goals first
    | exact ofOperands_arithmetic he
    | (unfold bitwise at he; split at he <;> cases he; trivial)
    | (split at he <;> cases he; trivial)
    | (cases he; trivial)
    | cases he

/-! ## 3. The stack around an instruction -/

/-- The stack without the values on its top. -/
def Stack.drop (s : Stack) (n : Nat) : Stack := { s with values := s.values.drop n }

@[simp] theorem Stack.capacity_drop (s : Stack) (n : Nat) : (s.drop n).capacity = s.capacity := rfl

@[simp] theorem Stack.depth_drop (s : Stack) (n : Nat) : (s.drop n).depth = s.depth - n :=
  List.length_drop

/-- **The first operands are taken**, the top one first, and nothing else has changed. -/
structure Taken (n : Nat) (w w' : Workspace) : Prop where
  enough : n ≤ w.stack.depth
  stack : w'.stack = w.stack.drop n
  heap : w'.heap = w.heap

theorem taken_zero (w : Workspace) : Taken 0 w w := ⟨Nat.zero_le _, rfl, rfl⟩

/-- **How an instruction fails that takes `n` values**, and which of them it has taken. -/
inductive Breaks (c : Context) (n : Nat) (w : Workspace) : EvalError → Workspace → Prop
  /-- What it names is not there. -/
  | place {err : EvalError} (he : err.OfPlace) : Breaks c n w err w
  /-- There are too few values. -/
  | underflow {w' : Workspace} (hn : w.stack.depth < n)
      (hs : w'.stack = w.stack.drop w.stack.depth) : Breaks c n w .stackUnderflow w'
  /-- One of them leads nowhere. -/
  | target {k : Nat} {v : Value} {err : EvalError} {w' : Workspace} (hk : k < n)
      (hv : w.stack.values[k]? = some v) (he : resolve c.scope w.heap v = .error err)
      (hs : w'.stack = w.stack.drop (k + 1)) : Breaks c n w err w'
  /-- It does not take them. -/
  | operands {err : EvalError} {w' : Workspace} (he : err.OfOperands) (hpos : 0 < n)
      (ht : Taken n w w') : Breaks c n w err w'
  /-- There is no room for the result. -/
  | overflow {w' : Workspace} (hn : n ≤ w.stack.depth)
      (hfull : w.stack.capacity ≤ w.stack.depth - n) (hs : w'.stack = w.stack.drop n) :
      Breaks c n w (.stackOverflow w.stack.capacity) w'

/-- **What an instruction leaves that takes `n` values**: one in their place. -/
structure Leaves (n : Nat) (w w' : Workspace) : Prop where
  enough : n ≤ w.stack.depth
  room : w.stack.depth - n < w.stack.capacity
  stack : ∃ v, w'.stack = { w.stack with values := v :: w.stack.values.drop n }

theorem Leaves.depth {n : Nat} {w w' : Workspace} (h : Leaves n w w') :
    w'.stack.depth = w.stack.depth - n + 1 := by
  obtain ⟨v, hv⟩ := h.stack
  simp [hv, Stack.depth]

theorem Leaves.capacity {n : Nat} {w w' : Workspace} (h : Leaves n w w') :
    w'.stack.capacity = w.stack.capacity := by
  obtain ⟨v, hv⟩ := h.stack
  rw [hv]

/-- A failure puts nothing on the stack. -/
theorem Breaks.depth_le {c : Context} {n : Nat} {w w' : Workspace} {err : EvalError}
    (h : Breaks c n w err w') : w'.stack.depth ≤ w.stack.depth := by
  cases h with
  | place _ => exact Nat.le_refl _
  | underflow _ hs | target _ _ _ hs | overflow _ _ hs => simp [hs]
  | operands _ _ ht => simp [ht.stack]

/-! ## 4. Instructions -/

section

variable {c : Context} {n k : Nat} {w w' : Workspace}

/-- The result finds room, or the stack stays without it. -/
theorem yields_pushValue (hn : n ≤ w.stack.depth) (hs : w'.stack = w.stack.drop n) (v : Value) :
    Yields (Breaks c n w) (fun _ => Leaves n w) (pushValue v) w' := by
  unfold pushValue Stack.push?
  refine yields_get ?_
  rw [hs, Stack.depth_drop, Stack.capacity_drop]
  split
  · next stack hpush =>
    split at hpush
    · next hroom =>
      cases hpush
      exact yields_set ⟨hn, hroom, v, rfl⟩
    · cases hpush
  · next hpush =>
    split at hpush
    · cases hpush
    · next hfull => exact yields_throw (.overflow hn (Nat.not_lt.mp hfull) hs)

/-- **One more operand** is taken and resolved. -/
theorem yields_popValue (ht : Taken k w w') (hk : k < n) :
    Yields (Breaks c n w) (fun _ => Taken (k + 1) w) (popValue c.scope) w' := by
  unfold popValue popRaw
  have hvalues : w'.stack.values = w.stack.values.drop k := by rw [ht.stack]; rfl
  cases hget : w.stack.values[k]? with
  | none =>
    have hlen : w.stack.values.length ≤ k := List.getElem?_eq_none_iff.mp hget
    have hdepth : w.stack.depth = k := Nat.le_antisymm hlen ht.enough
    rw [List.drop_eq_nil_of_le hlen] at hvalues
    refine yields_bind (R := fun _ _ => False) ?_ fun _ _ => False.elim
    refine yields_get ?_
    rw [hvalues]
    exact yields_throw (.underflow (hdepth ▸ hk) (by rw [ht.stack, hdepth]))
  | some v =>
    obtain ⟨hlt, hv⟩ := List.getElem?_eq_some_iff.mp hget
    rw [List.drop_eq_getElem_cons hlt, hv] at hvalues
    refine yields_bind (R := fun r w₁ => r = v ∧ Taken (k + 1) w w₁) ?_ ?_
    · refine yields_get ?_
      rw [hvalues]
      refine yields_set_bind (yields_pure ⟨rfl, hlt, ?_, ht.heap⟩)
      rw [ht.stack]
      rfl
    · rintro r w₁ ⟨rfl, ht₁⟩
      refine yields_get ?_
      rw [ht₁.heap]
      cases hr : resolve c.scope w.heap r with
      | ok u => exact yields_pure ht₁
      | error err => exact yields_throw (.target hk hget hr ht₁.stack)

theorem yields_lift {α : Type} {x : Fallible α} (ht : Taken n w w') (hpos : 0 < n)
    (hx : ∀ err, x = .error err → err.OfOperands) :
    Yields (Breaks c n w) (fun _ => Taken n w) (lift x) w' := by
  cases x with
  | ok a => exact yields_pure ht
  | error err => exact yields_throw (.operands (hx err rfl) hpos ht)

theorem yields_pushConstant (index : UInt16) :
    Yields (Breaks c 0 w) (fun _ => Leaves 0 w) (pushConstant c index) w := by
  unfold pushConstant
  split
  · exact yields_throw (.place trivial)
  · refine yields_get (yields_set_bind (yields_pushValue (Nat.zero_le _) ?_ _))
    rfl

theorem yields_ownSlots : Yields (Breaks c 0 w) (fun _ w' => w' = w) (ownSlots c) w := by
  unfold ownSlots
  split
  · exact yields_pure rfl
  · exact yields_throw (.place trivial)

theorem yields_pushInput (slot : UInt16) :
    Yields (Breaks c 0 w) (fun _ => Leaves 0 w) (pushInput c slot) w := by
  unfold pushInput
  refine yields_bind yields_ownSlots fun slots w' hw => ?_
  subst hw
  split
  · split
    · exact yields_pushValue (Nat.zero_le _) rfl _
    · exact yields_throw (.place trivial)
  · exact yields_throw (.place trivial)

theorem yields_pushLocal (index : UInt16) :
    Yields (Breaks c 0 w) (fun _ => Leaves 0 w) (pushLocal c index) w := by
  unfold pushLocal
  refine yields_bind yields_ownSlots fun slots w' hw => ?_
  subst hw
  dsimp only
  split
  · exact yields_pushValue (Nat.zero_le _) rfl _
  · exact yields_throw (.place trivial)

theorem yields_selectElement :
    Yields (Breaks c 2 w) (fun _ => Leaves 2 w) (selectElement c) w := by
  unfold selectElement
  refine yields_bind (yields_popValue (taken_zero w) (by decide)) fun indexValue w₁ h₁ => ?_
  refine yields_bind (yields_popValue h₁ (by decide)) fun arrayValue w₂ h₂ => ?_
  split
  · split
    · exact yields_throw (.operands trivial (by decide) h₂)
    · refine yields_get ?_
      dsimp only
      split
      · exact yields_throw (.operands trivial (by decide) h₂)
      · exact yields_pushValue h₂.enough h₂.stack _
  · exact yields_throw (.operands trivial (by decide) h₂)

theorem yields_applyOperation (op : Operation) :
    Yields (Breaks c op.arity w) (fun _ => Leaves op.arity w) (applyOperation c op) w := by
  unfold applyOperation
  obtain harity | harity | harity := op.arity_cases
  · rw [harity]
    refine yields_bind (yields_popValue (taken_zero w) (by decide)) fun a w₁ h₁ => yields_get ?_
    refine yields_bind (yields_lift h₁ (by decide) fun _ => ofOperands_unary) fun v w₂ h₂ => ?_
    exact yields_pushValue h₂.enough h₂.stack v
  · rw [harity]
    refine yields_bind (yields_popValue (taken_zero w) (by decide)) fun b w₁ h₁ => ?_
    refine yields_bind (yields_popValue h₁ (by decide)) fun a w₂ h₂ => yields_get ?_
    refine yields_bind (yields_lift h₂ (by decide) fun _ => ofOperands_binary) fun v w₃ h₃ => ?_
    exact yields_pushValue h₃.enough h₃.stack v
  · rw [harity]
    refine yields_bind (yields_popValue (taken_zero w) (by decide)) fun whenFalse w₁ h₁ => ?_
    refine yields_bind (yields_popValue h₁ (by decide)) fun whenTrue w₂ h₂ => ?_
    refine yields_bind (yields_popValue h₂ (by decide)) fun condition w₃ h₃ => yields_get ?_
    exact yields_pushValue h₃.enough h₃.stack _

/-- **Every instruction of a stream before its end** leaves one value in the place of those that it
    takes, or fails in one of the ways there are. -/
theorem yields_step {i : Instruction} (hi : i.ends = false) :
    Yields (Breaks c i.operands w) (fun _ => Leaves i.operands w) (step c i) w := by
  cases i with
  | pushConstant index => exact yields_pushConstant index
  | pushInput slot => exact yields_pushInput slot
  | pushLocal index => exact yields_pushLocal index
  | pushGlobal _ | pushOutput _ => exact yields_pushValue (Nat.zero_le _) rfl _
  | arrayElement => exact yields_selectElement
  | operation index =>
    cases hop : Operation.ofIndex? index.toNat with
    | none => simp [Instruction.ends, hop] at hi
    | some op =>
      have happly := yields_applyOperation (c := c) (w := w) op
      simpa only [step, Instruction.operands, hop, Option.map_some, Option.getD_some] using happly
  | stop => cases hi

end

end Expression

end InstrumentFlow
