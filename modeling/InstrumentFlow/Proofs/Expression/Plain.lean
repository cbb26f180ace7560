import InstrumentFlow.Expression.Evaluate
import InstrumentFlow.Proofs.Activity
import InstrumentFlow.Proofs.Value.Plain

/-!
# What expressions can yield

Where nothing that can be read names a place, an expression yields a value that names none, and as
a write target it names at most a local variable of its own instance.

* `Scope.Plain` -- what can be read names no place;
* `resolve_plain` -- a write target holds a plain value;
* `Kept` -- the operands and the storages of an evaluation, the invariant of a stream;
* `upholds_step`, `upholds_run` -- one instruction, and a stream;
* `upholds_evaluate`, `upholds_evaluateTarget` -- the two results.
-/

namespace InstrumentFlow.Expression

open Bytecode

/-! ## 1. Reading -/

/-- Nothing that can be read names a place. -/
structure Scope.Plain (scope : Scope) : Prop where
  slots : ∀ i slots, scope.slots? i = some slots → ∀ v ∈ slots.values, v.Plain
  globals : ∀ v ∈ scope.globals, v.Plain
  native : ∀ id, (scope.native id).Plain

theorem resolve_plain {scope : Scope} {h : Heap} {v w : Value} (hscope : scope.Plain)
    (hh : h.Plain) (hw : resolve scope h v = .ok w) : w.Plain := by
  unfold resolve at hw
  split at hw
  · next i index =>
    split at hw
    · next held hheld =>
      cases hw
      obtain ⟨slots, hslots, hget⟩ := Option.bind_eq_some_iff.mp hheld
      exact hscope.slots i slots hslots _ (Array.mem_of_getElem? hget)
    · cases hw
  · split at hw
    · next held hheld =>
      cases hw
      exact hscope.globals _ (Array.mem_of_getElem? hheld)
    · cases hw
  · next a index =>
    dsimp only at hw
    split at hw
    · next held hheld =>
      cases hw
      exact hh a _ (Array.mem_of_getElem? hheld)
    · cases hw
  · cases hw
    exact hscope.native _
  · next hslot hglobal helement hnative =>
    cases hw
    cases v with
    | slot i n => exact absurd rfl (hslot i n)
    | global n => exact absurd rfl (hglobal n)
    | element a n => exact absurd rfl (helement a n)
    | native id => exact absurd rfl (hnative id)
    | _ => rfl

/-! ## 2. Operands -/

/-- The place of an evaluation: what it can read is plain, and its own instance has that many
    inputs. -/
structure Context.Within (c : Context) (inputs : Nat) : Prop where
  plain : c.scope.Plain
  inputs_eq : ∀ slots, c.scope.slots? c.self = some slots → slots.inputCount = inputs

/-- What an evaluation keeps to: the operands name no slot but local variables of the instance, and
    the storages are plain. -/
structure Kept (c : Context) (inputs : Nat) (w : Workspace) : Prop where
  operands : ∀ v ∈ w.stack.values, v.Within c.self inputs
  heap : w.heap.Plain

section Evaluation

variable {c : Context} {inputs : Nat} (hc : c.Within inputs)

theorem upholds_lift {x : Fallible α} {Q : α → Workspace → Prop} {w : Workspace}
    (hw : Kept c inputs w) (hx : ∀ a, x = .ok a → Q a w) :
    Upholds (Kept c inputs) Q (lift x) w := by
  unfold lift
  cases x with
  | ok a => exact upholds_pure hw (hx a rfl)
  | error err => exact upholds_throw hw

theorem upholds_pushValue {v : Value} {w : Workspace} (hw : Kept c inputs w)
    (hv : v.Within c.self inputs) :
    Upholds (Kept c inputs) (fun _ _ => True) (pushValue v) w := by
  unfold pushValue
  refine upholds_get ?_
  split
  · next stack hpush =>
    refine upholds_set ⟨fun u hu => ?_, hw.heap⟩ trivial
    unfold Stack.push? at hpush
    split at hpush
    · rw [← Option.some.inj hpush] at hu
      rcases List.mem_cons.mp hu with rfl | hu
      · exact hv
      · exact hw.operands u hu
    · cases hpush
  · exact upholds_throw hw

theorem upholds_popRaw {w : Workspace} (hw : Kept c inputs w) :
    Upholds (Kept c inputs) (fun v _ => v.Within c.self inputs) popRaw w := by
  unfold popRaw
  refine upholds_get ?_
  split
  · next v values hvalues =>
    have hmem (u : Value) (hu : u ∈ v :: values) : u.Within c.self inputs :=
      hw.operands u (hvalues ▸ hu)
    refine upholds_set_bind (upholds_pure ⟨fun u hu => ?_, hw.heap⟩ ?_)
    · exact hmem u (List.mem_cons_of_mem v hu)
    · exact hmem v List.mem_cons_self
  · exact upholds_throw hw

theorem upholds_ownSlots {w : Workspace} (hw : Kept c inputs w) :
    Upholds (Kept c inputs) (fun slots _ => c.scope.slots? c.self = some slots) (ownSlots c) w := by
  unfold ownSlots
  split
  · next slots hslots => exact upholds_pure hw hslots
  · exact upholds_throw hw

theorem upholds_pushConstant {w : Workspace} (hw : Kept c inputs w) (index : UInt16) :
    Upholds (Kept c inputs) (fun _ _ => True) (pushConstant c index) w := by
  unfold pushConstant
  split
  · exact upholds_throw hw
  · next literal _ =>
    refine upholds_get (upholds_set_bind ?_)
    obtain ⟨hv, hh⟩ := literal.materialize_plain hw.heap
    exact upholds_pushValue ⟨hw.operands, hh⟩ (hv.within _ _)

include hc

theorem upholds_popValue {w : Workspace} (hw : Kept c inputs w) :
    Upholds (Kept c inputs) (fun v _ => v.Plain) (popValue c.scope) w := by
  unfold popValue
  refine upholds_bind (upholds_popRaw hw) fun v w hw _ => upholds_get ?_
  exact upholds_lift hw fun u hu => resolve_plain hc.plain hw.heap hu

/-! ## 3. Instructions -/

theorem upholds_pushInput {w : Workspace} (hw : Kept c inputs w) (slot : UInt16) :
    Upholds (Kept c inputs) (fun _ _ => True) (pushInput c slot) w := by
  unfold pushInput
  refine upholds_bind (upholds_ownSlots hw) fun slots w hw hslots => ?_
  split
  · split
    · next v hv =>
      have hplain := hc.plain.slots _ slots hslots v (Array.mem_of_getElem? hv)
      exact upholds_pushValue hw (hplain.within _ _)
    · exact upholds_throw hw
  · exact upholds_throw hw

theorem upholds_pushLocal {w : Workspace} (hw : Kept c inputs w) (index : UInt16) :
    Upholds (Kept c inputs) (fun _ _ => True) (pushLocal c index) w := by
  unfold pushLocal
  refine upholds_bind (upholds_ownSlots hw) fun slots w hw hslots => ?_
  dsimp only
  split
  · refine upholds_pushValue hw ?_
    rintro j n h
    cases h
    rw [hc.inputs_eq slots hslots]
    exact ⟨rfl, Nat.le_add_right _ _⟩
  · exact upholds_throw hw

theorem upholds_selectElement {w : Workspace} (hw : Kept c inputs w) :
    Upholds (Kept c inputs) (fun _ _ => True) (selectElement c) w := by
  unfold selectElement
  refine upholds_bind (upholds_popValue hc hw) fun indexValue w hw _ => ?_
  refine upholds_bind (upholds_popValue hc hw) fun arrayValue w hw _ => ?_
  split
  · split
    · exact upholds_throw hw
    · refine upholds_get ?_
      dsimp only
      split
      · exact upholds_throw hw
      · exact upholds_pushValue hw fun j n h => by cases h
  · exact upholds_throw hw

theorem upholds_applyOperation {w : Workspace} (hw : Kept c inputs w) (op : Operation) :
    Upholds (Kept c inputs) (fun _ _ => True) (applyOperation c op) w := by
  unfold applyOperation
  split
  · refine upholds_bind (upholds_popValue hc hw) fun a w hw ha => upholds_get ?_
    refine upholds_bind (R := fun v _ => v.Plain)
      (upholds_lift hw fun v hv => (unary_bare hv).plain) fun v w hw hv => ?_
    exact upholds_pushValue hw (hv.within _ _)
  · refine upholds_bind (upholds_popValue hc hw) fun b w hw _ => ?_
    refine upholds_bind (upholds_popValue hc hw) fun a w hw _ => upholds_get ?_
    refine upholds_bind (R := fun v _ => v.Plain)
      (upholds_lift hw fun v hv => (binary_bare hv).plain) fun v w hw hv => ?_
    exact upholds_pushValue hw (hv.within _ _)
  · refine upholds_bind (upholds_popValue hc hw) fun whenFalse w hw hf => ?_
    refine upholds_bind (upholds_popValue hc hw) fun whenTrue w hw ht => ?_
    refine upholds_bind (upholds_popValue hc hw) fun condition w hw _ => upholds_get ?_
    refine upholds_pushValue hw ?_
    split
    · exact ht.within _ _
    · exact hf.within _ _

/-- **One instruction** leaves operands that name no slot but local variables. -/
theorem upholds_step {w : Workspace} (hw : Kept c inputs w) (i : Instruction) :
    Upholds (Kept c inputs) (fun _ _ => True) (step c i) w := by
  cases i with
  | pushConstant index => exact upholds_pushConstant hw index
  | pushInput slot => exact upholds_pushInput hc hw slot
  | pushLocal index => exact upholds_pushLocal hc hw index
  | pushGlobal index =>
    refine upholds_pushValue hw fun j n h => ?_
    unfold globalTarget at h
    split at h <;> cases h
  | pushOutput index => exact upholds_pushValue hw fun j n h => by cases h
  | arrayElement => exact upholds_selectElement hc hw
  | operation index =>
    unfold step
    dsimp only
    split
    · exact upholds_applyOperation hc hw _
    · exact upholds_throw hw
  | stop => exact upholds_pure hw trivial

/-! ## 4. Streams -/

theorem upholds_run : ∀ (bytes : List UInt8) {w : Workspace}, Kept c inputs w →
    Upholds (Kept c inputs) (fun _ _ => True) (run c bytes) w
  | low :: high :: rest, w, hw => by
    unfold run
    dsimp only
    split
    · exact upholds_pure hw trivial
    · refine upholds_bind (upholds_step hc hw _) fun _ w hw _ => ?_
      exact upholds_bind (upholds_run rest hw) fun _ w hw _ => upholds_pure hw trivial
  | [], w, hw | [_], w, hw => upholds_throw hw

theorem upholds_runToResult {w : Workspace} (hw : w.heap.Plain) (bytes : List UInt8) :
    Upholds (Kept c inputs) (fun r _ => r.1.Within c.self inputs) (runToResult c bytes) w := by
  unfold runToResult
  refine upholds_modify_bind ?_
  have hstart : Kept c inputs { w with stack := w.stack.cleared } :=
    ⟨fun v hv => (nomatch hv), hw⟩
  refine upholds_bind (upholds_run hc bytes hstart) fun _ w hw _ => ?_
  have hsingle : Upholds (Kept c inputs) (fun v _ => v.Within c.self inputs) singleResult w := by
    unfold singleResult
    refine upholds_get ?_
    dsimp only
    split
    · exact upholds_popRaw hw
    · exact upholds_throw hw
  exact upholds_bind hsingle fun v w hw hv => upholds_pure hw hv

/-- **The value of a stream names no place.** -/
theorem upholds_evaluate {w : Workspace} (hw : w.heap.Plain) (bytes : List UInt8) :
    Upholds (Kept c inputs) (fun r _ => r.1.Plain) (evaluate c bytes) w := by
  unfold evaluate
  refine upholds_bind (upholds_runToResult hc hw bytes) fun r w hw _ => upholds_get ?_
  refine upholds_bind (R := fun v _ => v.Plain)
    (upholds_lift hw fun v hv => resolve_plain hc.plain hw.heap hv) fun v w hw hv => ?_
  exact upholds_pure hw hv

/-- **A stream names no slot as a write target** but a local variable of its instance. -/
theorem upholds_evaluateTarget {w : Workspace} (hw : w.heap.Plain) (bytes : List UInt8) :
    Upholds (Kept c inputs) (fun r _ => r.1.Within c.self inputs) (evaluateTarget c bytes) w := by
  unfold evaluateTarget
  refine upholds_bind (upholds_runToResult hc hw bytes) fun r w hw hr => ?_
  dsimp only
  split
  · exact upholds_pure hw hr
  · exact upholds_throw hw

end Evaluation

end InstrumentFlow.Expression
