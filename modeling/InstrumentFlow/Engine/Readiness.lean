import InstrumentFlow.Engine.State

/-!
# Readiness and the queue

* `Engine.inputsAllow` -- whether the inputs of a component let it run;
* `Engine.isReady`, `Engine.dataReady` -- before a task is queued, and before it runs;
* `Engine.failFatally` -- an error that nobody caught;
* `Engine.enqueue` -- a task for the queue;
* `Engine.ping` -- queues a component that is ready;
* `Engine.resetSequenceInputs` -- uses up the pulses of a component.
-/

namespace InstrumentFlow.Engine

/-! ## 1. Inputs -/

/-- Whether a slot of an instance holds something. -/
def isDefined (s : Instance) (slot : Nat) : Bool := s.values[slot]?.any fun v => !v.isUndefined

/-- Whether the slots that a component reads let it run: every input that is neither a pulse nor
    optional holds something and, where pulses count, one of them is there. -/
def slotsAllow (f : Flow) (s : Instance) (slots : List UInt16) (pulseCounts : Bool) : Bool :=
  let slots := slots.map UInt16.toNat
  let pulses := slots.filter f.isSequenceInput
  let data := slots.filter fun slot => !f.isSequenceInput slot && !f.isOptionalInput slot
  data.all (isDefined s) && (!pulseCounts || pulses.isEmpty || pulses.any (isDefined s))

/-- Whether a component can run. A catch component never starts by itself, a start component always
    can. -/
def inputsAllow (e : Engine) (i : InstanceId) (component : Nat) (pulseCounts : Bool) : Bool :=
  match e.instance? i with
  | none => false
  | some s =>
    let f := e.flowOf s
    match f.components[component]? with
    | none => false
    | some c =>
      match c.kind with
      | .catchError => !pulseCounts
      | .start => true
      | _ => slotsAllow f s c.inputs pulseCounts

/-- Ready to be queued. -/
def isReady (e : Engine) (i : InstanceId) (component : Nat) : Bool :=
  e.inputsAllow i component true

/-- Still ready when its turn comes: pulses were used up when the task was queued. -/
def dataReady (e : Engine) (i : InstanceId) (component : Nat) : Bool :=
  e.inputsAllow i component false

/-! ## 2. Fatal errors and the queue -/

/-- **An error that nobody caught**: the instance has failed and the run is to stop. -/
def failFatally (e : Engine) (i : InstanceId) (component : Nat) (message : String) : Engine :=
  let e := e.modifyInstance i fun s => { s with failed := true }
  let e := { e with lastError := some message }
  let e := (e.record (.failed i component message)).record .stopAsked
  { e with stopRequested := true }

/-- Puts a task into the queue, if it has room. -/
def enqueue (e : Engine) (t : Task) : Bool × Engine :=
  match e.queue.push? t with
  | some queue => (true, { e with queue }.record (.pushed t))
  | none => (false, e.record (.refused t))

/-- **Queues a component that is ready**, and tells whether it did. A full queue is fatal. -/
def ping (e : Engine) (i : InstanceId) (component : Nat) : Bool × Engine :=
  if e.stopRequested || !e.isReady i component then (false, e)
  else
    match e.enqueue ⟨i, component, false⟩ with
    | (true, e) => (true, e)
    | (false, e) => (false, e.failFatally i component FlowError.queueFull.message)

/-- Pings components one after the other. -/
def pingAll (e : Engine) (i : InstanceId) (components : List Nat) : Engine :=
  components.foldl (fun e c => (e.ping i c).2) e

/-! ## 3. Pulses -/

/-- The pulse slots of a component of an instance. -/
def sequenceInputs (e : Engine) (i : InstanceId) (component : Nat) : List Nat :=
  match e.instance? i with
  | none => []
  | some s =>
    let f := e.flowOf s
    match f.components[component]? with
    | none => []
    | some c => (c.inputs.map UInt16.toNat).filter f.isSequenceInput

/-- Empties the pulse slots of a component. -/
def resetSequenceInputs (e : Engine) (i : InstanceId) (component : Nat) : Engine :=
  (e.sequenceInputs i component).foldl (fun e slot => e.clearSlot i slot) e

end InstrumentFlow.Engine
