import InstrumentFlow.Engine.Transact

/-!
# Steps of components

* `Step` -- a step completes its component, or leaves it in the middle of its work;
* `Handler` -- how components of the host are run;
* one activity per kind of component;
* `wakeTime?` -- the moment at which a delay ends;
* `execute` -- the step of any component.
-/

namespace InstrumentFlow.Engine

open Numeric

inductive Step where
  | completed
  | suspended
  deriving DecidableEq, Repr

/-- How the host runs its component with a code, for an instance and a component of it. -/
abbrev Handler := UInt16 → InstanceId → Nat → Act Step

/-! ## 1. Calls and their ends -/

/-- The flow of an instance for a message; 0 for one that is gone. -/
def flowIndex (e : Engine) (i : InstanceId) : Nat := ((e.instance? i).map Instance.flow).getD 0

/-- Starts a flow as called by a component, which waits until the call ends. If nothing can run in
    the called flow the call ends at once. -/
def call (i : InstanceId) (component flow : Nat) : Act InstanceId := do
  let child ← create flow (some (i, component)) true
  modify (·.startAsync (some child) i component)
  if (← get).isCollectible child then
    modify (·.free child)
    modify (·.record (.returned child i component))
    pulse i component
  return child

/-- Ends a called flow: the caller goes on. In a flow that nobody called, stops the run. -/
def stepFinish (i : InstanceId) : Act Step := do
  let e ← get
  match e.instance? i with
  | none => throw .invalidInstance
  | some s =>
    match s.isAction, s.parent with
    | true, some (parent, component) =>
      modify (·.record (.returned i parent component))
      pulse parent component
      modify (·.endAsync (some i) parent component)
    | _, _ => modify fun e => { e.record .stopAsked with stopRequested := true }
    return .completed

/-- Sends the first input out of an output of the calling component. -/
def stepOutput (i : InstanceId) (index : Nat) (c : Component) : Act Step := do
  let e ← get
  let malformed (d : Defect) : FlowError := .malformedComponent (e.flowIndex i) index d
  match c.target?, c.inputs.head?, (e.instance? i).bind Instance.parent with
  | none, _, _ => throw (malformed .outputIndexMissing)
  | _, none, _ => throw (malformed .valueInputMissing)
  | _, _, none => throw (malformed .outsideCalledFlow)
  | some output, some slot, some (parent, component) =>
    let v := ((e.instance? i).bind (·.input? slot.toNat)).getD .undefined
    propagate parent component output.toNat v
    return .completed

def stepCall (i : InstanceId) (index : Nat) (c : Component) : Act Step := do
  match c.target? with
  | none => throw .invalidCallTarget
  | some flow =>
    let _ ← call i index flow.toNat
    return .completed

/-! ## 2. Expressions -/

/-- Sends the value of property 0 out of output 1, then a pulse. -/
def stepEvaluate (i : InstanceId) (index : Nat) : Act Step := do
  let v ← evaluateProperty i index 0 [] false
  propagate i index 1 v
  pulse i index
  return .completed

/-- Assigns one pair of properties, a target and a value. -/
def assignPair (i : InstanceId) (index pair : Nat) : Act Unit := do
  let destination ← evaluateProperty i index (pair * 2) [] true
  let v ← evaluateProperty i index (pair * 2 + 1) [] false
  assign i index destination v

/-- Assigns pairs of properties, in order. -/
def assignPairs (i : InstanceId) (index : Nat) : List Nat → Act Unit
  | [] => return
  | pair :: pairs => do
    assignPair i index pair
    assignPairs i index pairs

def stepSetVariable (i : InstanceId) (index : Nat) (c : Component) : Act Step := do
  assignPairs i index (List.range (c.properties.length / 2))
  pulse i index
  return .completed

/-- Sends the truth of property 0 out of output 1 or out of output 2. -/
def stepIsTrue (i : InstanceId) (index : Nat) : Act Step := do
  let v ← evaluateProperty i index 0 [] false
  let holds := v.toBool (← get).heap
  propagate i index (if holds then 1 else 2) (.boolean holds)
  return .completed

def stepLog (i : InstanceId) (index : Nat) : Act Step := do
  let v ← evaluateProperty i index 0 [] false
  let text ← textOf v
  modify (·.log i index (.info text))
  pulse i index
  return .completed

def stepError (i : InstanceId) (index : Nat) : Act Step := do
  let v ← evaluateProperty i index 0 [] false
  throw (.raised (← textOf v))

/-! ## 3. Components with progress -/

/-- Takes the progress of a component for the duration of its step. -/
def checkOut (i : InstanceId) (index : Nat) : Act (Option Progress) := do
  let (p, e) := (← get).takeProgress i index
  set e
  return p

/-- Puts progress back. -/
def checkIn (i : InstanceId) (index : Nat) (hadProgress : Bool) (p : Option Progress) : Act Unit :=
  modify (·.settleProgress i index hadProgress p)

/-- Sends the message of a caught error out of output 1, then a pulse. -/
def stepCatch (i : InstanceId) (index : Nat) : Act Step := do
  match ← checkOut i index with
  | some (.catchError message) =>
    checkIn i index true none
    propagate i index 1 (.string message)
    pulse i index
    return .completed
  | _ => return .completed

/-- Nanoseconds of a second. -/
def nanosPerSecond : Nat := 1000000000

/-- No moment lies this many seconds or more after the beginning. -/
def momentBound : Nat := twoTo 63

/-- The nanoseconds of a finite count of seconds that is not negative, a half to the even one. -/
def nanosOf (seconds : Binary64) : Option Nat :=
  match seconds.read with
  | .finite _ significand exponent =>
    some (roundHalfEven (significand * twoTo exponent.toNat * nanosPerSecond)
      (twoTo (-exponent).toNat))
  | _ => none

/-- **The moment at which a delay ends** that begins now; `none` where it cannot be named. What is
    negative or no number waits not at all. -/
def wakeTime? (now : Nat) (millis : Binary64) : Option Nat :=
  let waiting := if millis.isNaN || millis.negative then Binary.zero else millis
  match nanosOf (waiting.div (.ofInt 1000)) with
  | none => none
  | some nanos =>
    if now + nanos < momentBound * nanosPerSecond then some (now + nanos) else none

/-- Begins a delay of as many milliseconds as property 0 says. -/
def beginDelay (i : InstanceId) (index : Nat) : Act Step := do
  let millis ← evaluateProperty i index 0 [] false
  let e ← get
  match wakeTime? e.clock millis.toDouble with
  | some wakeAt =>
    checkIn i index false (some (.delay wakeAt))
    return .suspended
  | none =>
    set (e.breakDown .endlessDelay)
    return .completed

def stepDelay (i : InstanceId) (index : Nat) : Act Step := do
  match ← checkOut i index with
  | some (.delay wakeAt) =>
    if (← get).clock < wakeAt then
      checkIn i index true (some (.delay wakeAt))
      return .suspended
    else
      checkIn i index true none
      pulse i index
      return .completed
  | _ => beginDelay i index

/-- The properties of a loop: variable, first value, end, step. -/
def beginLoop (i : InstanceId) (index : Nat) : Act Step := do
  let destination ← evaluateProperty i index 0 [] true
  let first ← evaluateProperty i index 1 [] false
  let limit ← evaluateProperty i index 2 [] false
  let step ← evaluateProperty i index 3 [] false
  assign i index destination first
  checkIn i index false (some (.loop ⟨destination, limit, step⟩))
  pulse i index
  return .completed

/-- Advances a loop: the variable gets its next value and a pulse goes out, or the end is reached
    and output 1 fires. -/
def advanceLoop (i : InstanceId) (index : Nat) (l : LoopProgress) : Act Step := do
  let current ← resolved .readValue l.destination
  match Expression.arithmetic .add current l.step with
  | .error cause => throw (.evaluation .advanceLoop cause)
  | .ok next =>
    if l.limit.toDouble.lessOrEqual next.toDouble then
      checkIn i index true none
      propagate i index 1 .null
    else
      assign i index l.destination next
      checkIn i index true (some (.loop l))
      pulse i index
    return .completed

def stepLoop (i : InstanceId) (index : Nat) : Act Step := do
  match ← checkOut i index with
  | some (.loop l) => advanceLoop i index l
  | _ => beginLoop i index

/-- The part of the progress of a component that an SCPI component can use. -/
def scpiProgress : Option Progress → ScpiProgress
  | some (.scpi s) => s
  | _ => {}

/-- Runs parts of the payload; afterwards the progress is put back, or ended, also by a failure. -/
def stepScpi (i : InstanceId) (index : Nat) (c : Component) : Act Step := do
  let p ← checkOut i index
  let flow := (← get).flowIndex i
  let outcome ←
    tryCatch (runParts i index flow c.payload (c.payload.length + 1) (scpiProgress p))
      fun err => do
        checkIn i index p.isSome none
        throw err
  match outcome with
  | some s =>
    checkIn i index p.isSome (some (.scpi s))
    return .suspended
  | none =>
    checkIn i index p.isSome none
    pulse i index
    return .completed

/-! ## 4. Any component -/

/-- A component that does nothing but pass a pulse on. -/
def stepPass (i : InstanceId) (index : Nat) : Act Step := do
  pulse i index
  return .completed

/-- **The step of a component.** -/
def execute (handler : Handler) (i : InstanceId) (index : Nat) (c : Component) : Act Step :=
  match c.kind with
  | .start | .noop => stepPass i index
  | .finish => stepFinish i
  | .output => stepOutput i index c
  | .callAction => stepCall i index c
  | .evalExpr | .constant => stepEvaluate i index
  | .setVariable => stepSetVariable i index c
  | .isTrue => stepIsTrue i index
  | .log => stepLog i index
  | .error => stepError i index
  | .catchError => stepCatch i index
  | .delay => stepDelay i index
  | .loop => stepLoop i index
  | .scpi => stepScpi i index c
  | .host code => handler code i index

end InstrumentFlow.Engine
