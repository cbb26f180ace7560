import InstrumentFlow.Engine.Schedule

/-!
# Commands of the host

* `Engine.setInput`, `clearInput`, `setGlobal`, `setHostState` -- writes from outside the flows;
* `Engine.snapshot` -- everything that can be seen;
* `Engine.respond`, `takeRequest`, `dropRequest`, `leaveDesk` -- the desk where the host serves
  requests;
* `perform` -- one command, `performOrder` -- one order;
* `runCall` -- an execution of a component of the host as a row of orders;
* `handlerWithin` -- the handler of all components of the host.
-/

namespace InstrumentFlow.Engine

open Scpi

/-! ## 1. Writes from outside -/

/-- The components of a flow that read a slot. -/
def readers (f : Flow) (slot : Nat) : List Nat :=
  (List.range f.components.length).filter fun c =>
    f.components[c]?.any fun component => component.inputs.contains (UInt16.ofNat slot)

/-- Writes an input and pings every component that reads it. -/
def setInput (i : InstanceId) (slot : Nat) (v : Value) : Act Unit := do
  let e ← get
  match e.instance? i with
  | none => throw .invalidInstance
  | some s =>
    let f := e.flowOf s
    if slot < f.inputCount ∧ slot < s.values.size then
      set ((e.writeSlot i slot v).pingAll i (readers f slot))
    else throw (.invalidDestination .inputSlot)

/-- Empties an input that holds something. -/
def clearInput (e : Engine) (i : InstanceId) (slot : Nat) : Engine :=
  match e.instance? i with
  | none => e
  | some s => if slot < s.inputCount then e.clearSlot i slot else e

def setGlobal (index : Nat) (v : Value) : Act Unit := do
  let e ← get
  if index < e.globals.size then set (e.writeGlobal index v)
  else throw (.invalidDestination .globalVariable)

/-- Keeps the state of a component of the host, or ends it. -/
def setHostState (e : Engine) (i : InstanceId) (component : Nat) (state : Option Int32) : Engine :=
  match state with
  | some n => e.allocateProgress i component (.host n)
  | none => e.releaseProgress i component

def hostState? (e : Engine) (i : InstanceId) (component : Nat) : Option Int32 :=
  match e.progress? i component with
  | some (.host n) => some n
  | _ => none

/-! ## 2. Views -/

def viewOf (e : Engine) (i : InstanceId) (s : Instance) : InstanceView :=
  { id := i, flow := s.flow, isAction := s.isAction, failed := s.failed, parent := s.parent
    children := s.children
    values := s.values.toList.map e.heap.image
    asyncCount := s.asyncCount
    async := s.asyncComponents
    progress := s.progress.toList }

/-- An instance with its descendants behind it, `depth` levels deep. -/
def familyWithin (e : Engine) : Nat → InstanceId → List InstanceView
  | 0, _ => []
  | depth + 1, i =>
    match e.instance? i with
    | none => []
    | some s => e.viewOf i s :: s.children.flatMap (e.familyWithin depth)

def snapshot (e : Engine) : Snapshot :=
  { roots := e.forest.roots
    instances := e.forest.roots.flatMap (e.familyWithin e.chainBound)
    live := e.forest.live
    globals := e.globals.toList.map e.heap.image
    stackDepth := e.stack.depth
    stackCapacity := e.stack.capacity
    queueSize := e.queue.size
    queueCapacity := e.queue.capacity }

/-! ## 3. The desk -/

/-- Whether a component of a live instance waits for a transaction. -/
def holdsTransaction (e : Engine) (transaction : Nat) : Bool :=
  e.forest.entries.any fun entry =>
    entry.content.any fun s => s.progress.any fun p => p.any (Progress.holds transaction)

/-- Takes a request off the desk. -/
def takeRequest (e : Engine) : Option (Nat × Request) × Engine :=
  match e.dispatcher with
  | .desk d => let (r, d) := d.take; (r, { e with dispatcher := .desk d })
  | _ => (none, e)

/-- Settles a request that was taken. -/
def settleRequest (e : Engine) (number : Nat) : Option Request × Engine :=
  match e.dispatcher with
  | .desk d => let (r, d) := d.remove number; (r, { e with dispatcher := .desk d })
  | _ => (none, e)

/-- Answers a request that was taken; tells whether somebody waits for it. -/
def respond (e : Engine) (number : Nat) (response : Response) : Option Bool × Engine :=
  match e.settleRequest number with
  | (none, e) => (none, e)
  | (some r, e) =>
    (some (e.holdsTransaction r.transaction),
      { e with ledger := e.ledger.answer r.transaction response })

/-- Drops a request that was taken, so that no answer can come. -/
def dropRequest (e : Engine) (number : Nat) : Bool × Engine :=
  match e.settleRequest number with
  | (none, e) => (false, e)
  | (some r, e) => (true, { e with ledger := e.ledger.close r.transaction })

/-- Stops attending the desk; tells whether it was attended. -/
def leaveDesk (e : Engine) : Bool × Engine :=
  match e.dispatcher with
  | .desk d =>
    let (lost, left) := d.leave
    (d.attended, { e with dispatcher := .desk left, ledger := e.ledger.closeAll lost })
  | _ => (false, e)

/-! ## 4. Replies -/

/-- The reply to an activity. -/
def replyOf (reply : α → Engine → Reply) (a : Act α) (e : Engine) : Reply × Engine :=
  match a e with
  | .ok result e => (reply result e, e)
  | .error err e => (.failed err, e)

def doneReply (a : Act Unit) (e : Engine) : Reply × Engine := replyOf (fun _ _ => .done) a e

/-- A value with its image at this moment. -/
def valueReply (v : Value) (e : Engine) : Reply := .value v (e.heap.image v)

/-- A value that may be missing. -/
def optionalReply (v : Option Value) (e : Engine) : Reply :=
  match v with
  | some v => valueReply v e
  | none => .nothing

/-- An activity on the value that a host gives. -/
def withGiven (g : Given) (a : Value → Act α) : Act α := do
  let (v, e) := (← get).placeGiven g
  set e
  a v

/-- Evaluates a stream on a stack and with global variables of its own. -/
def evaluateCode (e : Engine) (i : InstanceId) (code : List UInt8) (iterators : List Int32)
    (stackCapacity : Nat) (target : Bool) : Reply × Engine :=
  let (result, after) :=
    runStream i code iterators target { e with stack := { capacity := stackCapacity } }
  let depth := after.stack.depth
  let e := { after with stack := e.stack }
  match result with
  | .ok (v, consumed) => (.evaluated v (e.heap.image v) consumed depth, e)
  | .error cause => (.evaluationFailed cause depth, e)

/-! ## 5. Commands -/

/-- **One command.** -/
def perform (handler : Handler) (command : Command) (e : Engine) : Reply × Engine :=
  match command with
  | .startFlow flow => replyOf (fun i _ => .instance i) (startFlow flow) e
  | .stop => (.done, e.stop)
  | .shutdown => (.done, e.shutdown)
  | .attach => (.done, e.attachDebugger)
  | .detach => (.done, e.detachDebugger)
  | .pause => (.done, e.setDebugger .paused)
  | .resume => (.done, e.setDebugger .resumed)
  | .singleStep => (.done, e.setDebugger .singleStep)
  | .tick => let (report, e) := e.tick handler e.config.allowance; (.report report, e)
  | .runUntilIdle maxTicks =>
    let (count, e) := runUntilIdle handler e.config.allowance maxTicks e
    (.count count, e)
  | .evaluate i component property iterators =>
    replyOf valueReply (evaluateProperty i component property iterators false) e
  | .evaluateTarget i component property iterators =>
    replyOf valueReply (evaluateProperty i component property iterators true) e
  | .assignProperty i component property iterators value =>
    doneReply (withGiven value fun v => do
      let destination ← evaluateProperty i component property iterators true
      assign i component destination v) e
  | .assign i component destination value =>
    doneReply (withGiven destination fun d => withGiven value fun v => assign i component d v) e
  | .readThrough value => replyOf valueReply (withGiven value (resolved .readValue)) e
  | .readInput i slot => (optionalReply ((e.instance? i).bind (·.input? slot)) e, e)
  | .readLocal i index => (optionalReply ((e.instance? i).bind (·.local? index)) e, e)
  | .readGlobal index => (optionalReply e.globals[index]? e, e)
  | .setInput i slot value => doneReply (withGiven value (setInput i slot)) e
  | .clearInput i slot => (.done, e.clearInput i slot)
  | .setGlobal index value => doneReply (withGiven value (setGlobal index)) e
  | .readHostState i component =>
    match e.hostState? i component with
    | some n => (.number n, e)
    | none => (.nothing, e)
  | .setHostState i component state => (.done, e.setHostState i component state)
  | .readProgress i component =>
    match e.progress? i component with
    | some p => (.progress p, e)
    | none => (.nothing, e)
  | .call i component flow => replyOf (fun child _ => .instance child) (call i component flow) e
  | .propagate i component output value =>
    doneReply (withGiven value (propagate i component output)) e
  | .pulse i component => doneReply (pulse i component) e
  | .raiseError i component message => (.done, e.raiseError i component message)
  | .startAsync i component => (.done, e.startAsync none i component)
  | .endAsync i component => (.done, e.endAsync none i component)
  | .log i component message => (.done, e.log i component (.info message))
  | .isAlive i => (.truth (e.forest.contains i), e)
  | .snapshot => (.snapshot e.snapshot, e)
  | .setRunning b => (.done, { e with host := { e.host with running := b } })
  | .setNative id value =>
    let (v, e) := e.placeGiven value
    (.done, { e with host := e.host.setNative id v })
  | .takeRequest =>
    match e.takeRequest with
    | (some (number, r), e) => (.request number r, e)
    | (none, e) => (.nothing, e)
  | .respond number response =>
    match e.respond number response with
    | (some heard, e) => (.truth heard, e)
    | (none, e) => (.nothing, e)
  | .dropRequest number => let (there, e) := e.dropRequest number; (.truth there, e)
  | .leaveDesk => let (there, e) := e.leaveDesk; (.truth there, e)
  | .evaluateCode i code iterators stackCapacity target =>
    e.evaluateCode i code iterators stackCapacity target

/-- The value in a reply. -/
def replyValue? : Reply → Option Value
  | .value v _ => some v
  | .evaluated v _ _ _ => some v
  | _ => none

/-- One command; a value that answers it is kept if the order says so. -/
def performOrder (handler : Handler) (order : Order) (e : Engine) : Reply × Engine :=
  let (reply, e) := perform handler order.command e
  match order.keepAs, replyValue? reply with
  | some name, some v => (reply, { e with host := e.host.keep name v })
  | _, _ => (reply, e)

/-! ## 6. Components of the host -/

/-- Orders in a row, with their replies. -/
def performAll (handler : Handler) (i : InstanceId) (component : Nat) :
    List (InstanceId → Nat → Order) → Engine → List Reply × Engine
  | [], e => ([], e)
  | order :: orders, e =>
    let (reply, e) := performOrder handler (order i component) e
    let (replies, e) := performAll handler i component orders e
    (reply :: replies, e)

/-- An execution of a component of the host. -/
def runCall (handler : Handler) (c : HostCall) (i : InstanceId) (component : Nat) : Act Step := do
  let (replies, e) := performAll handler i component c.orders (← get)
  set (e.record (.hostCalled i component replies))
  match c.ending with
  | .completed => return .completed
  | .suspended => return .suspended
  | .raised text => throw (.raised text)

/-- **The handler of all components of the host.** Their executions may run ticks, in which such
    components are executed again, at most `depth` inside each other. -/
def handlerWithin : Nat → Handler
  | 0, _, _, _ => do
    modify (·.breakDown .hostNesting)
    return .completed
  | depth + 1, code, i, component => do
    let e ← get
    match e.host.nextCall code with
    | none => throw (.unknownComponent code)
    | some (c, host) =>
      set { e with host }
      runCall (handlerWithin depth) c i component

/-- How deep executions of components of the host may be nested. -/
def nestingLimit : Nat := 500

def handler : Handler := handlerWithin nestingLimit

end InstrumentFlow.Engine
