import InstrumentFlow.Engine.Lifetime

/-!
# Values and errors on their way

* `coerce` -- a value in the kind of the value that it replaces;
* `Engine.deliver` -- one connection: write the slot, ping the component, use up the pulse;
* `propagate`, `pulse` -- a value along every connection of an output;
* `assign` -- a value to a write target;
* `Engine.findCatcher`, `markFailed` -- the two walks up the callers of an instance;
* `Engine.raiseError` -- an error to its catch output, to the nearest catch component, or to nobody.
-/

namespace InstrumentFlow

open Expression (resolve)

/-- **A value in the kind of the value that it replaces**, where that kind is a number or a text.
    `none` where an array that contains itself would become a text. -/
def coerce (h : Heap) (prior v : Value) : Option Value :=
  match prior with
  | .int _ => some (.int v.toInt32)
  | .float _ => some (.float v.toFloat)
  | .double _ => some (.double v.toDouble)
  | .string _ => (h.text? v).map .string
  | _ => some v

namespace Engine

/-! ## 1. Connections -/

/-- Writes a value into a slot unless the slot holds the same. -/
def offerSlot (e : Engine) (i : InstanceId) (slot : Nat) (held v : Value) : Engine :=
  match e.heap.same? held v with
  | some true => e
  | some false => e.writeSlot i slot v
  | none => (e.breakDown .endlessArray).writeSlot i slot v

/-- Brings a value to the end of a connection. A slot that does not exist is passed over. -/
def deliver (i : InstanceId) (v : Value) (c : Connection) : Act Unit := do
  let e ← get
  let slot := c.targetInput.toNat
  let target := c.targetComponent.toNat
  match e.instance? i with
  | none => throw .invalidInstance
  | some s =>
    match s.values[slot]? with
    | none => return
    | some held =>
      let e := (e.offerSlot i slot held v).record (.delivered i slot target v)
      let (queued, e) := e.ping i target
      set (if queued && c.isSequence then e.clearSlot i slot else e)

/-- Brings a value to the ends of connections, in order. -/
def deliverAll (i : InstanceId) (v : Value) : List Connection → Act Unit
  | [] => return
  | c :: cs => do
    deliver i v c
    deliverAll i v cs

/-- **Sends a value out of an output.** A component that sends during its own step first uses up its
    pulses. Nothing is sent once a stop is pending. -/
def propagate (i : InstanceId) (component output : Nat) (v : Value) : Act Unit := do
  let e ← get
  if e.stopRequested || e.stopped then return
  let e := if e.executing = some (i, component) then e.resetSequenceInputs i component else e
  set (e.record (.sent i component output v))
  match e.instance? i with
  | none => throw .invalidInstance
  | some s =>
    match e.componentRecord s.flow component with
    | .error err => throw err
    | .ok record =>
      match record.outputs[output]? with
      | none => return
      | some out =>
        let v ← resolved .readPropagated v
        deliverAll i v out.connections

/-- Sends a pulse out of the sequence output. -/
def pulse (i : InstanceId) (component : Nat) : Act Unit :=
  propagate i component sequenceOutput .null

/-! ## 2. Assignments -/

/-- A coerced value, or what stands for it after a breakdown. -/
def coerced (prior v : Value) : Act Value := do
  let e ← get
  match coerce e.heap prior v with
  | some w => return w
  | none =>
    set (e.breakDown .endlessArray)
    return v

/-- Writes a native variable, which the host may refuse. -/
def writeNative (id : UInt32) (v : Value) : Act Unit := do
  let e ← get
  let e := if e.host.listens then e.record (.nativeWritten id (e.heap.image v)) else e
  match e.host.refusal? id v with
  | none => set { e with host := e.host.setNative id v }
  | some refusal =>
    set e
    throw refusal

/-- Records that a value goes to a variable or to an element of an array. -/
def noteAssigned (e : Engine) (destination v : Value) : Engine :=
  e.record (.assigned destination v e.heap)

/-- **Writes a value to a write target.** Variables and elements keep the kind of what they hold. -/
def assign (i : InstanceId) (component : Nat) (destination value : Value) : Act Unit := do
  let v ← resolved .readAssigned value
  match destination with
  | .output output => propagate i component output.toNat v
  | .native id => writeNative id v
  | .element a index =>
    match ((← get).heap.elements a)[index]? with
    | none => throw .assignOutOfBounds
    | some prior =>
      let w ← coerced prior v
      modify fun e => (e.noteAssigned (.element a index) w).writeElement a index w
  | .slot target slot =>
    match (← get).instance? target with
    | none => throw .invalidInstance
    | some s =>
      match s.values[slot]? with
      | none => throw (.invalidDestination .slot)
      | some prior =>
        let w ← coerced prior v
        modify fun e => (e.noteAssigned (.slot target slot) w).writeSlot target slot w
  | .global index =>
    match (← get).globals[index]? with
    | none => throw (.invalidDestination .globalVariable)
    | some prior =>
      let w ← coerced prior v
      modify fun e => (e.noteAssigned (.global index) w).writeGlobal index w
  | other => throw (.invalidDestination (.value other.kind))

/-! ## 3. Errors -/

/-- The first catch component of a flow. -/
def catchComponent? (f : Flow) : Option Nat := f.components.findIdx? (·.kind == .catchError)

/-- The nearest instance with a catch component, from `i` up its callers; `steps` bounds the
    walk. -/
def findCatcher (e : Engine) : Nat → InstanceId → Option (InstanceId × Nat)
  | 0, _ => none
  | steps + 1, i =>
    match e.instance? i with
    | none => none
    | some s =>
      match catchComponent? (e.flowOf s) with
      | some component => some (i, component)
      | none => s.parent.bind fun p => e.findCatcher steps p.1

/-- Marks the instances from `i` up to the catching one, which stays unmarked, as failed. -/
def markFailed (catcher : InstanceId) : Nat → InstanceId → Engine → Engine
  | 0, _, e => e
  | steps + 1, i, e =>
    if i = catcher then e
    else
      match e.instance? i with
      | none => e
      | some s =>
        let e := e.modifyInstance i fun s => { s with failed := true }
        match s.parent with
        | some p => markFailed catcher steps p.1 e
        | none => e

/-- No chain of callers is longer than the list of entries. -/
def chainBound (e : Engine) : Nat := e.forest.entries.size + 1

/-- Sends an error out of the catch output of its component. -/
def sendError (e : Engine) (i : InstanceId) (component output : Nat) (message : String) : Engine :=
  match propagate i component output (.string message) e with
  | .ok _ e => e
  | .error err e => e.failFatally i component err.message

/-- Hands an error to a catch component and queues that. -/
def routeError (e : Engine) (i : InstanceId) (component : Nat) (catcher : InstanceId)
    (catchComponent : Nat) (message : String) : Engine :=
  let e := markFailed catcher e.chainBound i e
  let e := e.record (.routed i component catcher catchComponent message)
  let e := e.allocateProgress catcher catchComponent (.catchError message)
  match e.enqueue ⟨catcher, catchComponent, false⟩ with
  | (true, e) => e
  | (false, e) => e.failFatally i component FlowError.queueFull.message

/-- **An error in a component** goes to its catch output, else to the nearest catch component, else
    it is fatal. An error component is not caught by its own flow. -/
def raiseError (e : Engine) (i : InstanceId) (component : Nat) (message : String) : Engine :=
  match e.instance? i with
  | none => e
  | some s =>
    match e.definition.component? s.flow component with
    | none => e.failFatally i component message
    | some record =>
      match record.catchOutput with
      | some output => e.sendError i component output.toNat message
      | none =>
        let start := if record.kind = .error then s.parent.map (·.1) else some i
        match start.bind (e.findCatcher e.chainBound) with
        | none => e.failFatally i component message
        | some (catcher, catchComponent) =>
          e.routeError i component catcher catchComponent message

end Engine

end InstrumentFlow
