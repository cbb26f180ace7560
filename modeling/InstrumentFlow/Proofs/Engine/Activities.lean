import InstrumentFlow.Engine.Step
import InstrumentFlow.Proofs.Engine.Stroke

/-!
# Activities as rows of strokes

Every activity short of the beginning and the end of instances is a row of strokes: evaluations,
pings, values on their way, assignments, errors, progress and requests.

* `Aims` -- a write target leads to no slot but a local variable of the instance;
* `upholds_evaluateProperty`, `strokes_ping`, `upholds_propagate` -- evaluations, pings and values
  on their way; each of them goes on from strokes that were made before.
-/

namespace InstrumentFlow.Engine

/-! ## 1. Write targets -/

/-- As a write target the value leads to no slot but a local variable of the instance. -/
def Aims (e : Engine) (i : InstanceId) (v : Value) : Prop :=
  ∀ j n, v = .slot j n → j = i ∧ ∀ s, e.instance? i = some s → s.inputCount ≤ n

theorem Aims.calm {e e' : Engine} {i : InstanceId} {v : Value} (hc : Calm e e') :
    e'.Aims i v ↔ e.Aims i v := by
  have hinputs : (∀ n : Nat, (∀ s, e'.instance? i = some s → s.inputCount ≤ n)
      ↔ ∀ s, e.instance? i = some s → s.inputCount ≤ n) := by
    intro n
    constructor
    · intro h s hs
      obtain ⟨s', hs', he⟩ := hc.forth hs
      rw [← Instance.inputCount_of_frame he]
      exact h s' hs'
    · intro h s' hs'
      obtain ⟨s, hs, he⟩ := hc.back hs'
      rw [Instance.inputCount_of_frame he]
      exact h s hs
  unfold Aims
  simp only [hinputs]

theorem aims_of_within {e : Engine} {i : InstanceId} {inputs : Nat} {v : Value}
    (h : v.Within i inputs) (hi : ∀ s, e.instance? i = some s → s.inputCount = inputs) :
    e.Aims i v := by
  intro j n hv
  obtain ⟨hj, hn⟩ := h j n hv
  exact ⟨hj, fun s hs => hi s hs ▸ hn⟩

section

variable {closed : Prop} {own : Leeway} {e₀ e : Engine} (h₀ : Inv closed e₀)
  (h : Strokes closed own e₀ e)

/-! ## 2. Small writers -/

include h in
theorem strokes_record (event : Event) (hl : event.isLife = false)
    (ht : event.isTraffic = false) (hc : event.isCourse = false) :
    Strokes closed own e₀ (e.record event) := h.tail (.note hl ht hc)

include h₀ h

/-- Values are computed, and nothing but arrays, the stack and the host changes. -/
theorem strokes_aside {e' : Engine}
    (he : e' = { e with
      heap := e'.heap, stack := e'.stack, host := e'.host, breakdown := e'.breakdown })
    (hr : e'.host.isRunning = e.host.isRunning) (hs : e.Plain → e'.Store) :
    Strokes closed own e₀ e' := h.tail (.aside he hr fun hc => hs ((h.inv h₀).plain hc))

theorem strokes_breakDown (b : Breakdown) : Strokes closed own e₀ (e.breakDown b) :=
  strokes_aside h₀ h rfl rfl fun hp => ⟨hp.store.globals, hp.store.heap, hp.store.host⟩

omit h₀ in
theorem strokes_writeGlobal (index : Nat) {v : Value} (hv : closed → v.Plain) :
    Strokes closed own e₀ (e.writeGlobal index v) := h.tail (.global hv)

omit h₀ in
theorem strokes_writeElement (a : ArrayId) (index : Nat) {v : Value} (hv : closed → v.Plain) :
    Strokes closed own e₀ (e.writeElement a index v) := h.tail (.element hv)

omit h₀ in
theorem strokes_clearSlot (i : InstanceId) (slot : Nat) :
    Strokes closed own e₀ (e.clearSlot i slot) := by
  unfold clearSlot
  split
  · split
    · exact h
    · exact h.tail (.write fun _ => ⟨rfl, Or.inl rfl⟩)
  · exact h

omit h₀ in
/-- A write to a slot that a write target leads to. -/
theorem strokes_writeSlot {i j : InstanceId} {slot : Nat} {v : Value} (hv : closed → v.Plain)
    (ht : closed → e.Aims i (.slot j slot)) : Strokes closed own e₀ (e.writeSlot j slot v) := by
  refine h.tail (.write fun hc => ⟨hv hc, Or.inr fun s hs => ?_⟩)
  obtain ⟨rfl, hn⟩ := ht hc j slot rfl
  exact hn s hs

/-! ## 3. Evaluation -/

omit h₀ h in
/-- What can be read while nothing that is stored names a place. -/
theorem scope_plain {e : Engine} (hp : e.Plain) : e.scope.Plain where
  slots i slots hs v hv := by
    obtain ⟨s, hi, rfl⟩ := Option.map_eq_some_iff.mp hs
    exact (hp.contents i s hi).values v hv
  globals := hp.store.globals
  native := hp.store.host.native

/-- What comes of an evaluation: a value that names no place, or a write target that leads to no
    slot but a local variable. -/
def Outcome (e : Engine) (i : InstanceId) (target : Bool) (v : Value) : Prop :=
  if target then e.Aims i v else v.Plain

theorem runStream_spec (i : InstanceId) (code : List UInt8) (iterators : List Int32)
    (target : Bool) :
    Strokes closed own e₀ (runStream i code iterators target e).2 ∧
      ∀ r, (runStream i code iterators target e).1 = .ok r →
        closed → (runStream i code iterators target e).2.Outcome i target r.1 := by
  have hi := h.inv h₀
  let inputs : Nat := ((e.instance? i).map Instance.inputCount).getD 0
  let context : Expression.Context := ⟨e.scope, i, iterators⟩
  have hinputs (s : Instance) (hs : e.instance? i = some s) : s.inputCount = inputs := by
    simp [inputs, hs]
  have hrun (hc : closed) : Upholds (Expression.Kept context inputs)
      (fun r _ => if target then r.1.Within i inputs else r.1.Plain)
      (if target then Expression.evaluateTarget context code else Expression.evaluate context code)
      ⟨e.stack, e.heap⟩ := by
    have hp := hi.plain hc
    have hcontext : context.Within inputs :=
      ⟨scope_plain hp, fun slots hs => by
        obtain ⟨s, hi, rfl⟩ := Option.map_eq_some_iff.mp hs
        exact hinputs s hi⟩
    cases target with
    | true => exact Expression.upholds_evaluateTarget hcontext hp.store.heap code
    | false => exact Expression.upholds_evaluate hcontext hp.store.heap code
  have hstore (hc : closed) {heap : Heap} (hh : heap.Plain) (stack : Expression.Stack) :
      ({ e with stack, heap } : Engine).Store :=
    ⟨(hi.plain hc).store.globals, hh, (hi.plain hc).store.host⟩
  unfold runStream
  dsimp only
  split
  · next r w hw =>
    refine ⟨h.tail (.aside rfl rfl fun hc => hstore hc ((hrun hc).of_ok hw).1.heap _), ?_⟩
    intro r' hr hc
    cases hr
    have hq := ((hrun hc).of_ok hw).2
    unfold Outcome
    cases target with
    | true => exact aims_of_within hq hinputs
    | false => exact hq
  · next cause w hw =>
    have hw' : Strokes closed own e₀ { e with stack := w.stack, heap := w.heap } :=
      h.tail (.aside rfl rfl fun hc => hstore hc ((hrun hc).of_error hw).heap _)
    refine ⟨?_, fun r hr => (nomatch hr)⟩
    split
    · exact strokes_breakDown h₀ hw' _
    · exact hw'

theorem upholds_evaluateIn (activity : Activity) (i : InstanceId) (code : List UInt8)
    (iterators : List Int32) (target : Bool) :
    Upholds (Strokes closed own e₀) (fun r e' => closed → e'.Outcome i target r.1)
      (evaluateIn activity i code iterators target) e := by
  obtain ⟨ht, hr⟩ := runStream_spec h₀ h i code iterators target
  unfold evaluateIn
  refine upholds_get (upholds_set_bind ?_)
  dsimp only
  split
  · next r heq => exact upholds_pure ht (hr r heq)
  · exact upholds_throw ht

/-- **The value of a property names no place**; as a write target it leads to no slot but a local
    variable. -/
theorem upholds_evaluateProperty (i : InstanceId) (component property : Nat)
    (iterators : List Int32) (target : Bool) :
    Upholds (Strokes closed own e₀) (fun v e' => closed → e'.Outcome i target v)
      (evaluateProperty i component property iterators target) e := by
  unfold evaluateProperty
  refine upholds_get ?_
  split
  · exact upholds_throw h
  · split
    · exact upholds_throw h
    · split
      · exact upholds_throw h
      · exact upholds_bind (upholds_evaluateIn h₀ h _ i _ iterators target) fun r e' h' hr =>
          upholds_pure h' hr

/-- What a write target holds names no place. -/
theorem upholds_resolved (activity : Activity) (v : Value) :
    Upholds (Strokes closed own e₀) (fun w _ => closed → w.Plain) (resolved activity v) e := by
  unfold resolved
  refine upholds_get ?_
  split
  · next w hw =>
    have hp (hc : closed) := (h.inv h₀).plain hc
    exact upholds_pure h fun hc =>
      Expression.resolve_plain (scope_plain (hp hc)) (hp hc).store.heap hw
  · exact upholds_throw h

theorem upholds_textOf (v : Value) :
    Upholds (Strokes closed own e₀) (fun _ _ => True) (textOf v) e := by
  unfold textOf
  refine upholds_get ?_
  split
  · exact upholds_pure h trivial
  · exact upholds_set_bind (upholds_pure (strokes_breakDown h₀ h _) trivial)

/-! ## 4. Pings -/

omit h₀ in
theorem strokes_failFatally (i : InstanceId) (component : Nat) (message : String) :
    Strokes closed own e₀ (e.failFatally i component message) :=
  h.tail (.fatal i component message)

omit h₀ h in
/-- **What a ping does**: it queues a component that is ready, or nothing, or the queue is full. -/
theorem ping_cases (e : Engine) (i : InstanceId) (component : Nat) :
    (∃ queue, e.isReady i component = true ∧ e.queue.push? ⟨i, component, false⟩ = some queue
      ∧ e.ping i component = (true, { e with queue }.record (.pushed ⟨i, component, false⟩)))
    ∨ e.ping i component = (false, e)
    ∨ e.queue.push? ⟨i, component, false⟩ = none
      ∧ e.ping i component = (false, (e.record (.refused ⟨i, component, false⟩)).failFatally i
        component FlowError.queueFull.message) := by
  unfold ping enqueue
  split
  · exact Or.inr (Or.inl rfl)
  · next hready =>
    have hr : e.isReady i component = true := by simpa using And.right (by simpa using hready)
    cases hq : e.queue.push? ⟨i, component, false⟩ with
    | some queue => exact Or.inl ⟨queue, hr, rfl, rfl⟩
    | none => exact Or.inr (Or.inr ⟨rfl, rfl⟩)

omit h₀ in
/-- A ping, other than at the end of a connection. -/
theorem strokes_ping (hd : e.justDelivered = false) (i : InstanceId) (component : Nat) :
    Strokes closed own e₀ (e.ping i component).2
      ∧ (e.ping i component).2.justDelivered = false := by
  rcases ping_cases e i component with ⟨queue, hr, hq, he⟩ | he | ⟨hq, he⟩
  · rw [he]
    exact ⟨h.tail (.push hq (Or.inr (Or.inl ⟨hd, hr⟩)) rfl), rfl⟩
  · rw [he]
    exact ⟨h, hd⟩
  · rw [he]
    exact ⟨h.tail (.refuse hq i component), rfl⟩

omit h₀ in
theorem strokes_pingAll (hd : e.justDelivered = false) (i : InstanceId) (components : List Nat) :
    Strokes closed own e₀ (e.pingAll i components) := by
  unfold pingAll
  induction components generalizing e with
  | nil => exact h
  | cons c cs ih =>
    obtain ⟨hping, hd⟩ := strokes_ping h hd i c
    exact ih hping hd

omit h₀ in
theorem strokes_clearSlots (i : InstanceId) (slots : List Nat) :
    Strokes closed own e₀ (slots.foldl (fun e slot => e.clearSlot i slot) e) := by
  induction slots generalizing e with
  | nil => exact h
  | cons slot slots ih => exact ih (strokes_clearSlot h i slot)

omit h₀ in
theorem strokes_resetSequenceInputs (i : InstanceId) (component : Nat) :
    Strokes closed own e₀ (e.resetSequenceInputs i component) := strokes_clearSlots h i _

/-! ## 5. Connections -/

omit h₀ h in
theorem isWire_calm {e e' : Engine} (hc : Calm e e') (i : InstanceId) (c : Connection) :
    e'.IsWire i c ↔ e.IsWire i c := by
  unfold IsWire
  simp only [componentOf?_calm hc]

omit h₀ in
theorem upholds_deliver {i : InstanceId} {v : Value} {c : Connection} (hv : closed → v.Plain)
    (hw : e₀.IsWire i c) : Upholds (Strokes closed own e₀) (fun _ _ => True) (deliver i v c) e := by
  unfold deliver
  refine upholds_get ?_
  dsimp only
  split
  · exact upholds_throw h
  next s hs =>
  split
  · exact upholds_pure h trivial
  next held hheld =>
  have hwire := (isWire_calm h.calm i c).mpr hw
  rcases ping_cases (e.arrival i c.targetInput.toNat c.targetComponent.toNat held v) i
    c.targetComponent.toNat with ⟨queue, hr, hq, he⟩ | he | ⟨hq, he⟩
  · refine upholds_set ?_ trivial
    unfold arrival at he
    rw [he]
    simp only [Bool.true_and]
    exact h.tail (.fire hs hheld hv hwire hr hq)
  · refine upholds_set ?_ trivial
    unfold arrival at he
    rw [he]
    exact h.tail (.arrive hs hheld hv)
  · refine upholds_set ?_ trivial
    unfold arrival at he
    rw [he]
    exact (h.tail (.arrive hs hheld hv)).tail (.refuse hq i _)

omit h₀ in
theorem upholds_deliverAll {i : InstanceId} {v : Value} {cs : List Connection}
    (hv : closed → v.Plain) (hw : ∀ c ∈ cs, e₀.IsWire i c) :
    Upholds (Strokes closed own e₀) (fun _ _ => True) (deliverAll i v cs) e := by
  induction cs generalizing e with
  | nil => exact upholds_pure h trivial
  | cons c cs ih =>
    have hc := upholds_deliver h hv (hw c List.mem_cons_self)
    exact upholds_bind hc fun _ e' h' _ => ih h' fun c' hc' => hw c' (List.mem_cons_of_mem c hc')

/-- **Sending a value out of an output** is a row of strokes. -/
theorem upholds_propagate (i : InstanceId) (component output : Nat) (v : Value) :
    Upholds (Strokes closed own e₀) (fun _ _ => True) (propagate i component output v) e := by
  unfold propagate
  refine upholds_get ?_
  split
  · exact upholds_pure h trivial
  have hreset : Strokes closed own e₀ (if e.executing = some (i, component) then
      e.resetSequenceInputs i component else e) := by
    split
    · exact strokes_resetSequenceInputs h i component
    · exact h
  generalize (if e.executing = some (i, component) then
    e.resetSequenceInputs i component else e) = e₁ at hreset ⊢
  have hsent := strokes_record hreset (.sent i component output v) rfl rfl rfl
  refine upholds_set_bind ?_
  split
  · exact upholds_throw hsent
  next s hs =>
  split
  · exact upholds_throw hsent
  next record hrecord =>
  split
  · exact upholds_pure hsent trivial
  next out hout =>
  refine upholds_bind (upholds_resolved h₀ hsent _ v) fun w e' h' hw => ?_
  refine upholds_deliverAll h' hw fun c hc => ?_
  refine (isWire_calm hreset.calm i c).mp ⟨component, record, ?_, out, ?_, hc⟩
  · unfold componentOf?
    rw [hs]
    unfold componentRecord at hrecord
    split at hrecord
    · next c' hc' =>
      rw [← Except.ok.inj hrecord]
      exact hc'
    · cases hrecord
  · exact List.mem_of_getElem? hout

theorem upholds_pulse (i : InstanceId) (component : Nat) :
    Upholds (Strokes closed own e₀) (fun _ _ => True) (pulse i component) e :=
  upholds_propagate h₀ h i component _ _

end

end InstrumentFlow.Engine
