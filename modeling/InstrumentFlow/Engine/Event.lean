import InstrumentFlow.Engine.Instance
import InstrumentFlow.Engine.Task
import InstrumentFlow.Scpi.Transaction

/-!
# What happens while flows run

* `Location`, `LogEntry`, `TickReport` -- the contents of events and answers;
* `InstanceView`, `Snapshot` -- everything that can be seen of a running program at one moment;
* `Reply` -- the answer to a command;
* `Reading` -- what places hold at one moment;
* `Event` -- one entry of the journal of a running program. A part of the events is announced to
  the host (`Event.isAnnounced`), the others record the inner course of the run.
-/

namespace InstrumentFlow

open Scpi

/-! ## 1. Contents -/

/-- A place whose content changed. -/
inductive Location where
  | slot (instanceId : InstanceId) (index : Nat)
  | global (index : Nat)
  | element (index : Nat)
  deriving DecidableEq, Repr

inductive LogEntry where
  | info (text : String)
  | command (text : String)
  | query (text : String)
  | result (text : String)
  deriving DecidableEq, Repr

/-- What one tick did. -/
structure TickReport where
  executed : Nat := 0
  /-- Tasks dropped because their instance is gone. -/
  discarded : Nat := 0
  /-- Tasks in the queue at the end. -/
  remaining : Nat := 0
  budgetExhausted : Bool := false
  /-- The first task was not ready any more and held up the rest. -/
  stalled : Bool := false
  paused : Bool := false
  stopped : Bool := false
  deriving DecidableEq, Repr

/-! ## 2. Views -/

structure InstanceView where
  id : InstanceId
  flow : Nat
  isAction : Bool
  failed : Bool
  parent : Option (InstanceId × Nat)
  children : List InstanceId
  values : List Image
  asyncCount : Nat
  async : List Nat
  progress : List (Option Progress)

structure Snapshot where
  roots : List InstanceId
  /-- Every root with its descendants behind it. -/
  instances : List InstanceView
  live : Nat
  globals : List Image
  stackDepth : Nat
  stackCapacity : Nat
  queueSize : Nat
  queueCapacity : Nat

/-- The answer to a command. -/
inductive Reply where
  | done
  | nothing
  | instance (i : InstanceId)
  | report (r : TickReport)
  | count (n : Nat)
  | number (i : Int32)
  | truth (b : Bool)
  | value (v : Value) (image : Image)
  | progress (p : Progress)
  | request (number : Nat) (r : Request)
  | evaluated (v : Value) (image : Image) (consumed depth : Nat)
  | evaluationFailed (e : EvalError) (depth : Nat)
  | snapshot (s : Snapshot)
  | failed (e : FlowError)

/-! ## 3. Events -/

/-- What a host finds that reads places at one moment. -/
abbrev Reading := Location → Option Value

inductive Event where
  /-- The content of a place changed or was written; what can be read now. -/
  | changed (l : Location) {found : Reading}
  /-- An instance of a flow began; what can be read now. -/
  | created (i : InstanceId) (flow : Nat) {found : Reading}
  | destroyed (i : InstanceId)
  /-- The progress of a component appeared or went away. -/
  | progressChanged (i : InstanceId) (component : Nat)
  | asyncChanged (i : InstanceId) (component : Nat)
  /-- An error that no component caught. -/
  | failed (i : InstanceId) (component : Nat) (message : String)
  | logged (i : InstanceId) (component : Nat) (entry : LogEntry)
  /-- The host is asked to stop the automation. -/
  | stopAsked
  | tickEnded
  | nativeWritten (id : UInt32) (image : Image)
  /-- A component of the host did its work; the replies to its commands. -/
  | hostCalled (i : InstanceId) (component : Nat) (replies : List Reply)
  /-- A task came into the queue. -/
  | pushed (t : Task)
  /-- The queue was full. -/
  | refused (t : Task)
  /-- The turn of a task came, and it left the queue. -/
  | taken (t : Task)
  /-- A step of a component began. -/
  | stepped (t : Task)
  /-- A step of a component ended; it may have left the component in the middle of its work. -/
  | ended (i : InstanceId) (component : Nat) (midway : Bool)
  /-- A task was dropped because its instance is gone. -/
  | discarded (t : Task)
  /-- A value was sent out of an output. -/
  | sent (i : InstanceId) (component output : Nat) (v : Value)
  /-- A connection wrote a value into a slot and pinged a component. -/
  | delivered (i : InstanceId) (slot target : Nat) (v : Value)
  /-- An assignment is about to write this value to a variable or to an element of an array; the
      storages as they are before that. -/
  | assigned (destination v : Value) (h : Heap)
  /-- An error went to a catch component. -/
  | routed (thrower : InstanceId) (component : Nat) (catcher : InstanceId) (catchComponent : Nat)
      (message : String)
  /-- A called flow gave back control to its caller. -/
  | returned (child : InstanceId) (caller : InstanceId) (component : Nat)
  /-- A component begins to wait, for a flow that it called or because the host says so. -/
  | awaited (child : Option InstanceId) (caller : InstanceId) (component : Nat)
  /-- The waiting of a component ends, with a flow that it called or because the host says so. -/
  | released (child : Option InstanceId) (caller : InstanceId) (component : Nat)
  /-- A task of a component was dealt with, and the pulses of the component are used up. -/
  | settled (i : InstanceId) (component : Nat)
  /-- A request went out for a component. -/
  | dispatched (i : InstanceId) (component : Nat) (r : Request)
  /-- A component collected an answer. -/
  | collected (i : InstanceId) (component transaction : Nat) (r : Response)
  /-- A start made good what may have stopped the run before. -/
  | restarted
  /-- The run was brought to its end, and the queue emptied. -/
  | halted

namespace Event

/-- Whether the host is told of the event. -/
def isAnnounced : Event → Bool
  | changed _ | created _ _ | destroyed _ | progressChanged _ _ | asyncChanged _ _
  | failed _ _ _ | logged _ _ _ | stopAsked | tickEnded | nativeWritten _ _
  | hostCalled _ _ _ => true
  | _ => false

end Event

end InstrumentFlow
