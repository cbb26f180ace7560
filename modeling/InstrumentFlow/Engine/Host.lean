import InstrumentFlow.Engine.Event
import InstrumentFlow.Value.Basic

/-!
# The host

The application around a running program: it gives commands, answers questions of the program and
implements components of its own as lists of commands.

* `Command`, `Order` -- what a host can ask for, and under which name it keeps a value;
* `Ending`, `HostCall` -- one execution of a component of the host;
* `Natives` -- the native variables of a host, and which writes it refuses;
* `Host` -- everything about the host that a run depends on;
* `Host.native`, `refusal?`, `isRunning`, `scpiText`, `nextCall` -- its answers.
-/

namespace InstrumentFlow

/-! ## 1. Commands -/

inductive Command where
  | startFlow (flow : Nat)
  | stop
  | shutdown
  | attach
  | detach
  | pause
  | resume
  | singleStep
  | tick
  | runUntilIdle (maxTicks : Nat)
  | evaluate (i : InstanceId) (component property : Nat) (iterators : List Int32)
  | evaluateTarget (i : InstanceId) (component property : Nat) (iterators : List Int32)
  | assignProperty (i : InstanceId) (component property : Nat) (iterators : List Int32)
      (value : Given)
  | assign (i : InstanceId) (component : Nat) (destination value : Given)
  | readThrough (value : Given)
  | readInput (i : InstanceId) (slot : Nat)
  | readLocal (i : InstanceId) (index : Nat)
  | readGlobal (index : Nat)
  | setInput (i : InstanceId) (slot : Nat) (value : Given)
  | clearInput (i : InstanceId) (slot : Nat)
  | setGlobal (index : Nat) (value : Given)
  | readHostState (i : InstanceId) (component : Nat)
  | setHostState (i : InstanceId) (component : Nat) (state : Option Int32)
  | readProgress (i : InstanceId) (component : Nat)
  | call (i : InstanceId) (component flow : Nat)
  | propagate (i : InstanceId) (component output : Nat) (value : Given)
  | pulse (i : InstanceId) (component : Nat)
  | raiseError (i : InstanceId) (component : Nat) (message : String)
  | startAsync (i : InstanceId) (component : Nat)
  | endAsync (i : InstanceId) (component : Nat)
  | log (i : InstanceId) (component : Nat) (message : String)
  | isAlive (i : InstanceId)
  | snapshot
  | setRunning (b : Bool)
  | setNative (id : UInt32) (value : Given)
  | takeRequest
  | respond (number : Nat) (response : Scpi.Response)
  | dropRequest (number : Nat)
  | leaveDesk
  | evaluateCode (i : InstanceId) (code : List UInt8) (iterators : List Int32)
      (stackCapacity : Nat) (target : Bool)

/-- A command, and the name under which the value that answers it is kept. -/
structure Order where
  command : Command
  keepAs : Option String := none

/-! ## 2. Components of the host -/

/-- How an execution ends. -/
inductive Ending where
  | completed
  | suspended
  | raised (text : String)

/-- One execution of a component of the host: orders that may depend on the running instance and
    component, and the end. -/
structure HostCall where
  orders : List (InstanceId → Nat → Order) := []
  ending : Ending := .completed

/-! ## 3. Native variables -/

/-- What was written to native variables: to each of them last, the latest first. -/
abbrev NativeTable := List (UInt32 × Value)

/-- **The native variables of a host.** What they hold and which writes the host refuses is up to
    the host. As a rule they hold what was written, and no write is refused. -/
structure Natives where
  written : NativeTable := []
  holds : NativeTable → UInt32 → Value := fun written id => (written.lookup id).getD .undefined
  refusal? : NativeTable → UInt32 → Value → Option FlowError := fun _ _ _ => none

namespace Natives

def read (n : Natives) (id : UInt32) : Value := n.holds n.written id

def write (n : Natives) (id : UInt32) (v : Value) : Natives :=
  { n with written := (id, v) :: n.written.filter (·.1 != id) }

/-- Why the host refuses a write. -/
def refuses? (n : Natives) (id : UInt32) (v : Value) : Option FlowError :=
  n.refusal? n.written id v

end Natives

/-! ## 4. Hosts -/

structure Host where
  /-- A host that does not listen is told nothing and leaves every question to its default. -/
  listens : Bool := true
  running : Bool := true
  natives : Natives := {}
  /-- Whether the host answers writes to its native variables itself. -/
  nativesWritable : Bool := true
  scpiTexts : List (Int32 × String) := []
  /-- The executions of each code, of which the last is repeated. -/
  components : List (UInt16 × List HostCall) := []
  /-- How often each code was executed. -/
  executions : List (UInt16 × Nat) := []
  kept : List (String × Value) := []

namespace Host

/-- The content of a native variable. -/
def native (h : Host) (id : UInt32) : Value :=
  if h.listens then h.natives.read id else .undefined

def setNative (h : Host) (id : UInt32) (v : Value) : Host :=
  { h with natives := h.natives.write id v }

/-- Why a write to a native variable fails. -/
def refusal? (h : Host) (id : UInt32) (v : Value) : Option FlowError :=
  if h.listens && h.nativesWritable then h.natives.refuses? id v else some (.readOnlyNative id)

def isRunning (h : Host) : Bool := !h.listens || h.running

/-- The text for an error code of the instrument. -/
def scpiText (h : Host) (code : Int32) : String :=
  let standard := "Error " ++ toString code.toInt
  if h.listens then (h.scpiTexts.lookup code).getD standard else standard

/-- A value kept under a name. -/
def keptValue (h : Host) (name : String) : Value := (h.kept.lookup name).getD .undefined

def keep (h : Host) (name : String) (v : Value) : Host := { h with kept := (name, v) :: h.kept }

/-- The next execution of a code, and the host after it was counted; `none` for codes that the host
    does not implement. -/
def nextCall (h : Host) (code : UInt16) : Option (HostCall × Host) :=
  match h.components.lookup code with
  | none => none
  | some calls =>
    let count := (h.executions.lookup code).getD 0
    let call := ((calls[count]?).or calls.getLast?).getD {}
    some (call,
      { h with executions := (code, count + 1) :: h.executions.filter (·.1 != code) })

end Host

end InstrumentFlow
