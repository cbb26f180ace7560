import InstrumentFlow.Asset.Validate
import InstrumentFlow.Engine.Step

/-!
# Running tasks

* `Engine.build` -- a program that has not been started;
* `startFlow`, `Engine.stop`, `shutdown` -- beginning and end of a run;
* `Engine.debuggerBlocks` -- whether the debugger holds a task back;
* `Engine.runTask` -- one task, with everything that follows from its outcome;
* `Engine.tick` -- the tasks that are queued when the tick begins, as far as its time reaches;
* `Engine.runUntilIdle` -- ticks until nothing is left to do.
-/

namespace InstrumentFlow.Engine

/-! ## 1. Beginning and end -/

/-- A program that has not been started, from a sound definition. -/
def build (definition : Definition) (config : Config) (dispatcher : Dispatcher) (host : Host) :
    Except AssetError Engine :=
  definition.validate.map fun _ =>
    let (globals, heap) := Literal.materializeList definition.globals {}
    { definition, config, dispatcher, host, heap
      globals := globals.toArray
      queue := { capacity := config.queueCapacity }
      stack := { capacity := config.stackCapacity } }

/-- Starts a flow that nobody calls. -/
def startFlow (flow : Nat) : Act InstanceId := do
  modify fun e =>
    { e.record .restarted with stopped := false, stopRequested := false, lastError := none }
  create flow none false

/-- Asks for a stop, which takes place at the end of the next tick. -/
def stop (e : Engine) : Engine := { e with stopRequested := true }

/-- **Destroys every instance and empties the queue.** -/
def shutdown (e : Engine) : Engine :=
  let e := e.forest.roots.foldl (fun e root => e.free root) e
  { e.record .halted with
    queue := e.queue.clear
    stack := e.stack.cleared
    stopRequested := false
    stopped := true }

def isStopped (e : Engine) : Bool := e.stopped || e.stopRequested

/-! ## 2. The debugger -/

/-- Whether the component of a task has a breakpoint. -/
def hasBreakpoint (e : Engine) (t : Task) : Bool :=
  ((e.instance? t.instanceId).bind fun s =>
    e.definition.component? s.flow t.component).any Component.breakpoint

/-- **Whether the debugger holds a task back.** A breakpoint holds its task back once. -/
def debuggerBlocks (e : Engine) (t : Task) : Bool × Engine :=
  match e.debugger with
  | none | some .singleStep => (false, e)
  | some .paused => (true, e)
  | some .resumed =>
    let place := (t.instanceId, t.component)
    if e.skipBreakpoint = some place then (false, { e with skipBreakpoint := none })
    else if e.hasBreakpoint t && !t.continuous then
      (true, { e with debugger := some .paused, skipBreakpoint := some place })
    else (false, e)

def attachDebugger (e : Engine) : Engine := { e with debugger := some .resumed }

def detachDebugger (e : Engine) : Engine := { e with debugger := none, skipBreakpoint := none }

/-- Sets the mode of a debugger that is attached. -/
def setDebugger (e : Engine) (mode : DebuggerMode) : Engine :=
  { e with debugger := e.debugger.map fun _ => mode }

/-! ## 3. One task -/

/-- Uses up the pulses of a component after its step and frees its instance if that is over. -/
def tidy (e : Engine) (i : InstanceId) (component : Nat) : Engine :=
  ((e.resetSequenceInputs i component).record (.settled i component)).collect i

/-- Queues a component again that is in the middle of its work. A full queue is fatal. -/
def continueLater (e : Engine) (i : InstanceId) (component : Nat) : Engine :=
  match e.enqueue ⟨i, component, true⟩ with
  | (true, e) => e
  | (false, e) =>
    (e.releaseProgress i component).failFatally i component FlowError.queueFull.message

/-- No step is running any more. -/
def endStep (e : Engine) (i : InstanceId) (component : Nat) (midway : Bool) : Engine :=
  { e with executing := none }.record (.ended i component midway)

/-- What follows from the outcome of a step. -/
def settleOutcome (i : InstanceId) (component : Nat)
    (outcome : EStateM.Result FlowError Engine Step) : Engine :=
  match outcome with
  | .ok .completed e => e.endStep i component false
  | .ok .suspended e => (e.endStep i component true).continueLater i component
  | .error err e =>
    ((e.endStep i component false).releaseProgress i component).raiseError i component err.message

/-- The step of a task is about to run. -/
def beginStep (e : Engine) (t : Task) : Engine :=
  { e with executing := some (t.instanceId, t.component) }.record (.stepped t)

/-- Runs the step of a component of an instance that has not failed. -/
def runStep (handler : Handler) (e : Engine) (t : Task) (c : Component) : Engine :=
  settleOutcome t.instanceId t.component
    (execute handler t.instanceId t.component c (e.beginStep t))

/-- **Runs one task.** In an instance that has failed the task is only cleared away. -/
def runTask (handler : Handler) (e : Engine) (t : Task) : Engine :=
  match e.instance? t.instanceId with
  | none => e
  | some s =>
    match e.componentRecord s.flow t.component with
    | .error err => e.failFatally t.instanceId t.component err.message
    | .ok c =>
      if s.failed then
        (e.releaseProgress t.instanceId t.component).tidy t.instanceId t.component
      else (e.runStep handler t c).tidy t.instanceId t.component

/-! ## 4. Ticks -/

/-- The engine when the turn of its first task has come. -/
def takeTask (e : Engine) (t : Task) : Engine := { e with queue := e.queue.pop }.record (.taken t)

/-- Tasks in order, at most `count` of them; `allowance` tells how many of them the time of the tick
    reaches for, and none for all. -/
def runTasks (handler : Handler) : Nat → Option Nat → TickReport → Engine → TickReport × Engine
  | 0, _, report, e => (report, e)
  | count + 1, allowance, report, e =>
    if e.stopRequested then (report, e)
    else if allowance = some 0 then ({ report with budgetExhausted := true }, e)
    else
      let allowance := allowance.map (· - 1)
      match e.queue.tasks with
      | [] => (report, e)
      | t :: _ =>
        if !e.forest.contains t.instanceId then
          runTasks handler count allowance { report with discarded := report.discarded + 1 }
            ((e.takeTask t).record (.discarded t))
        else if !t.continuous && !e.dataReady t.instanceId t.component then
          ({ report with stalled := true }, e)
        else
          match e.debuggerBlocks t with
          | (true, e) => ({ report with paused := true }, e)
          | (false, e) =>
            let e := (e.takeTask t).runTask handler t
            let report := { report with executed := report.executed + 1 }
            if e.debugger = some .singleStep then
              ({ report with paused := true }, { e with debugger := some .paused })
            else runTasks handler count allowance report e

/-- The end of a tick: a pending stop takes place, and the host is told. -/
def endTick (report : TickReport) (e : Engine) : TickReport × Engine :=
  let e := if e.stopRequested then e.shutdown else e
  ({ report with stopped := e.stopped, remaining := e.queue.size }, e.record .tickEnded)

/-- **One tick**: the tasks that are in the queue now, in order, as far as the allowance reaches. -/
def tick (handler : Handler) (allowance : Option Nat) (e : Engine) : TickReport × Engine :=
  if !e.stopRequested && !e.stopped && e.host.isRunning then
    let (report, e) := runTasks handler e.queue.size allowance {} e
    endTick report e
  else endTick {} e

/-- Ticks until the queue is empty or the run has stopped, at most `maxTicks` of them. Gives their
    count. -/
def runUntilIdle (handler : Handler) (allowance : Option Nat) : Nat → Engine → Nat × Engine
  | 0, e => (0, e)
  | maxTicks + 1, e =>
    if e.stopped || e.queue.isEmpty then (0, e)
    else
      let (_, e) := e.tick handler allowance
      let (count, e) := runUntilIdle handler allowance maxTicks e
      (count + 1, e)

end InstrumentFlow.Engine
