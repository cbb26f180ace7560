import InstrumentFlow.Value.Basic

/-!
# Flow instances

* `Progress` -- what a component keeps while it is in the middle of its work;
* `Instance` -- one activation of a flow: its slots, the progress of its components, its place in
  the forest of instances.
-/

namespace InstrumentFlow

/-! ## 1. Progress of components -/

/-- The progress of an SCPI component: the offset of the part that runs next, the command text so
    far, and the transaction that is waited for. -/
structure ScpiProgress where
  cursor : Nat := 0
  text : String := ""
  pending : Option Nat := none
  deriving DecidableEq, Repr

/-- The progress of a loop: the variable, the end and the step. -/
structure LoopProgress where
  destination : Value
  limit : Value
  step : Value
  deriving DecidableEq

inductive Progress where
  | scpi (s : ScpiProgress)
  | loop (l : LoopProgress)
  /-- Waits until this moment, in nanoseconds. -/
  | delay (wakeAt : Nat)
  /-- An error on its way to the outputs of a catch component. -/
  | catchError (message : String)
  /-- Kept for a component of the host. -/
  | host (state : Int32)
  deriving DecidableEq

namespace Progress

/-- Whether the work must be finished before the instance may go. A loop only waits to be
    triggered again. -/
def keepsAlive : Progress → Bool
  | loop _ => false
  | _ => true

def name : Progress → String
  | scpi _ => "scpi"
  | loop _ => "loop"
  | delay _ => "delay"
  | catchError _ => "catch_error"
  | host _ => "host"

/-- Whether the progress waits for a transaction. -/
def holds (transaction : Nat) : Progress → Bool
  | scpi s => s.pending == some transaction
  | _ => false

end Progress

/-! ## 2. Instances -/

structure Instance where
  flow : Nat
  /-- Started by a call, and gone when nothing is left to run in it. -/
  isAction : Bool
  /-- An error left the instance; its tasks are only cleared away. -/
  failed : Bool := false
  /-- How many components wait for something outside the queue. -/
  asyncCount : Nat := 0
  /-- The component that called the flow. -/
  parent : Option (InstanceId × Nat)
  children : List InstanceId := []
  /-- Inputs first, then local variables. -/
  values : Array Value
  inputCount : Nat
  progress : Array (Option Progress)
  async : Array Bool

namespace Instance

/-- The content of an input slot. -/
def input? (s : Instance) (slot : Nat) : Option Value :=
  if slot < s.inputCount then s.values[slot]? else none

/-- The content of a local variable. -/
def local? (s : Instance) (index : Nat) : Option Value := s.values[s.inputCount + index]?

def progress? (s : Instance) (component : Nat) : Option Progress :=
  (s.progress[component]?).join

def isAsync (s : Instance) (component : Nat) : Bool := (s.async[component]?).getD false

def setValue (s : Instance) (slot : Nat) (v : Value) : Instance :=
  { s with values := s.values.setIfInBounds slot v }

def setProgress (s : Instance) (component : Nat) (p : Option Progress) : Instance :=
  { s with progress := s.progress.setIfInBounds component p }

/-- Sets or takes away the mark of a waiting component that did not have it like that. -/
def setAsync (s : Instance) (component : Nat) (waits : Bool) : Instance :=
  { s with
    async := s.async.setIfInBounds component waits
    asyncCount := if waits then s.asyncCount + 1 else s.asyncCount - 1 }

/-- The components that have progress. -/
def openComponents (s : Instance) : List Nat :=
  (List.range s.progress.size).filter fun c => (s.progress? c).isSome

/-- The components that wait for something outside the queue. -/
def asyncComponents (s : Instance) : List Nat :=
  (List.range s.async.size).filter s.isAsync

end Instance

end InstrumentFlow
