import InstrumentFlow.Asset.Definition
import InstrumentFlow.Config
import InstrumentFlow.Engine.Forest
import InstrumentFlow.Engine.Host
import InstrumentFlow.Expression.Evaluate
import InstrumentFlow.Scpi.Worker

/-!
# The state of a running program

* `DebuggerMode`, `Dispatcher`, `Breakdown` -- parts of the state;
* `Engine` -- the state: the definition, the instances, the queue of tasks, the operand stack, the
  transactions with the instrument, the host, and the journal of what happened;
* `Act` -- activities that can fail; a failure keeps what was done before it;
* small readers and writers of the state, each of which records what observers must learn.
-/

namespace InstrumentFlow

open Expression (Stack Scope Slots)
open Scpi (Desk Worker Ledger)

/-! ## 1. Parts -/

/-- What an attached debugger does before every task. -/
inductive DebuggerMode where
  | resumed
  | paused
  /-- Runs one task and then pauses. -/
  | singleStep
  deriving DecidableEq, Repr

/-- Where requests go. -/
inductive Dispatcher where
  | absent
  | desk (d : Desk)
  | worker (w : Worker)

/-- Why a run cannot have gone on: what happened after the first breakdown has no meaning. -/
inductive Breakdown where
  /-- A delay ends later than any moment that can be named. -/
  | endlessDelay
  /-- An array that contains itself was to be written out or compared. -/
  | endlessArray
  /-- Components of the host ran inside each other too deep. -/
  | hostNesting
  deriving DecidableEq, Repr

/-! ## 2. The state -/

structure Engine where
  definition : Definition
  config : Config
  forest : Forest := {}
  globals : Array Value := #[]
  heap : Heap := {}
  queue : TaskQueue
  stack : Stack
  ledger : Ledger := {}
  dispatcher : Dispatcher := .absent
  debugger : Option DebuggerMode := none
  /-- A breakpoint that was reported and will be passed once. -/
  skipBreakpoint : Option (InstanceId × Nat) := none
  /-- The component whose step is running. -/
  executing : Option (InstanceId × Nat) := none
  stopRequested : Bool := false
  stopped : Bool := true
  lastError : Option String := none
  /-- The present moment, in nanoseconds. -/
  clock : Nat := 0
  host : Host := {}
  /-- What happened, the latest first. -/
  journal : List Event := []
  breakdown : Option Breakdown := none

/-- An activity that can fail. -/
abbrev Act := EStateM FlowError Engine

namespace Engine

/-! ## 3. Journal and breakdown -/

/-- Adds an event to the journal. -/
def record (e : Engine) (event : Event) : Engine := { e with journal := event :: e.journal }

/-- Notes a breakdown; the first one stays. -/
def breakDown (e : Engine) (b : Breakdown) : Engine :=
  { e with breakdown := e.breakdown.or (some b) }

/-! ## 4. Instances -/

def instance? (e : Engine) (i : InstanceId) : Option Instance := e.forest.get? i

def modifyInstance (e : Engine) (i : InstanceId) (change : Instance → Instance) : Engine :=
  { e with forest := e.forest.modify i change }

/-- The flow of an instance. -/
def flowOf (e : Engine) (s : Instance) : Flow := (e.definition.flows[s.flow]?).getD {}

/-- The record of a component of a flow. -/
def componentRecord (e : Engine) (flow component : Nat) : Except FlowError Component :=
  match e.definition.component? flow component with
  | some c => .ok c
  | none => .error (.malformedComponent flow component .componentMissing)

/-- What a slot or a global variable holds. Nobody can name an element of an array from outside. -/
def content? (e : Engine) : Reading
  | .slot i n => (e.instance? i).bind (·.values[n]?)
  | .global n => e.globals[n]?
  | .element _ => none

/-- Tells the host of a change. What it finds if it reads at that moment is recorded with it. -/
def tellChanged (e : Engine) (l : Location) : Engine :=
  e.record (@Event.changed l e.content?)

/-- Tells the host that an instance began, and records what it finds then. -/
def tellCreated (e : Engine) (i : InstanceId) (flow : Nat) : Engine :=
  e.record (@Event.created i flow e.content?)

/-- Writes a slot and tells the change. -/
def writeSlot (e : Engine) (i : InstanceId) (slot : Nat) (v : Value) : Engine :=
  (e.modifyInstance i (·.setValue slot v)).tellChanged (.slot i slot)

/-- Writes a global variable and tells the change. -/
def writeGlobal (e : Engine) (index : Nat) (v : Value) : Engine :=
  { e with globals := e.globals.setIfInBounds index v }.tellChanged (.global index)

/-- Writes an element of an array and tells the change. -/
def writeElement (e : Engine) (a : ArrayId) (index : Nat) (v : Value) : Engine :=
  { e with heap := e.heap.write a index v }.tellChanged (.element index)

/-- Empties a slot that holds something, and records that. -/
def clearSlot (e : Engine) (i : InstanceId) (slot : Nat) : Engine :=
  match (e.instance? i).bind (·.values[slot]?) with
  | some v => if v.isUndefined then e else e.writeSlot i slot .undefined
  | none => e

/-! ## 5. Reading -/

/-- What expressions can read. -/
def scope (e : Engine) : Scope :=
  { constants := e.definition.constants
    slots? := fun i => (e.instance? i).map fun s => ⟨s.values, s.inputCount⟩
    globals := e.globals
    native := e.host.native }

/-- What a write target holds; an activity is named for the failure. -/
def resolved (activity : Activity) (v : Value) : Act Value := do
  let e ← get
  match Expression.resolve e.scope e.heap v with
  | .ok v => return v
  | .error cause => throw (.evaluation activity cause)

/-- The text of a value, as far as there is one. -/
def textOf (v : Value) : Act String := do
  let e ← get
  match e.heap.text? v with
  | some s => return s
  | none =>
    set (e.breakDown .endlessArray)
    return ""

/-- The value that a host gives. -/
def placeGiven (e : Engine) (g : Given) : Value × Engine :=
  let (v, heap) := g.place e.host.keptValue e.heap
  (v, { e with heap })

/-! ## 6. Evaluation -/

/-- Runs a stream on the program's own stack. -/
def runStream (i : InstanceId) (code : List UInt8) (iterators : List Int32) (target : Bool)
    (e : Engine) : Except EvalError (Value × Nat) × Engine :=
  let context : Expression.Context := ⟨e.scope, i, iterators⟩
  let run := if target then Expression.evaluateTarget context code
    else Expression.evaluate context code
  match run ⟨e.stack, e.heap⟩ with
  | .ok r w => (.ok r, { e with stack := w.stack, heap := w.heap })
  | .error cause w =>
    let e := { e with stack := w.stack, heap := w.heap }
    (.error cause, if cause = .endlessArray then e.breakDown .endlessArray else e)

/-- Runs a stream inside an activity. -/
def evaluateIn (activity : Activity) (i : InstanceId) (code : List UInt8)
    (iterators : List Int32) (target : Bool) : Act (Value × Nat) := do
  let (result, e) := runStream i code iterators target (← get)
  set e
  match result with
  | .ok r => return r
  | .error cause => throw (.evaluation activity cause)

/-- Evaluates a property of a component, to a value or to a write target. -/
def evaluateProperty (i : InstanceId) (component property : Nat) (iterators : List Int32)
    (target : Bool) : Act Value := do
  let e ← get
  match e.instance? i with
  | none => throw .invalidInstance
  | some s =>
    match e.componentRecord s.flow component with
    | .error err => throw err
    | .ok record =>
      match record.properties[property]? with
      | none => throw (.malformedComponent s.flow component (.propertyMissing property))
      | some p =>
        let (v, _) ← evaluateIn (.property property component) i p.instructions iterators target
        return v

end Engine

end InstrumentFlow
