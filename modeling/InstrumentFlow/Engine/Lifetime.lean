import InstrumentFlow.Engine.Readiness

/-!
# The lives of instances

* `Engine.allocateProgress`, `releaseProgress`, `takeProgress`, `settleProgress` -- the progress of
  components and who is told of its changes;
* `Engine.startAsync`, `endAsync` -- components that wait for something outside the queue;
* `Engine.isCollectible` -- nothing can run any more in the instance of a called flow;
* `Engine.free` -- destroys an instance and its descendants, which ends the calls that made them;
* `Engine.create` -- makes an instance and pings its components.
-/

namespace InstrumentFlow.Engine

/-! ## 1. Progress -/

/-- Whether an instance has a place for the progress of a component. -/
def hasComponent (e : Engine) (i : InstanceId) (component : Nat) : Bool :=
  (e.instance? i).any fun s => component < s.progress.size

def progress? (e : Engine) (i : InstanceId) (component : Nat) : Option Progress :=
  (e.instance? i).bind (·.progress? component)

/-- Replaces the progress of a component without telling anybody. -/
def setProgress (e : Engine) (i : InstanceId) (component : Nat) (p : Option Progress) : Engine :=
  e.modifyInstance i (·.setProgress component p)

/-- Gives a component progress. -/
def allocateProgress (e : Engine) (i : InstanceId) (component : Nat) (p : Progress) : Engine :=
  if e.hasComponent i component then
    (e.setProgress i component (some p)).record (.progressChanged i component)
  else e

/-- Ends the progress of a component, if it has any. -/
def releaseProgress (e : Engine) (i : InstanceId) (component : Nat) : Engine :=
  if (e.progress? i component).isSome then
    (e.setProgress i component none).record (.progressChanged i component)
  else e

/-- Takes the progress of a component away for the duration of a step. -/
def takeProgress (e : Engine) (i : InstanceId) (component : Nat) : Option Progress × Engine :=
  (e.progress? i component, e.setProgress i component none)

/-- Puts progress, or none, back after a step. Observers are told when progress appeared or went
    away over the step as a whole. -/
def settleProgress (e : Engine) (i : InstanceId) (component : Nat) (hadProgress : Bool)
    (p : Option Progress) : Engine :=
  if e.hasComponent i component then
    let e := e.setProgress i component p
    if hadProgress != p.isSome then e.record (.progressChanged i component) else e
  else e

/-! ## 2. Collectible instances -/

/-- **Nothing can run any more** in the instance of a called flow: no component waits for something
    outside, no task is queued, and no progress is left but that of loops. -/
def isCollectible (e : Engine) (i : InstanceId) : Bool :=
  match e.instance? i with
  | none => false
  | some s =>
    s.isAction && s.asyncCount == 0 && !e.queue.hasTasksOf i
      && s.progress.all fun p => !(p.any Progress.keepsAlive)

/-! ## 3. Waiting components -/

/-- Sets or takes away the mark of a waiting component that did not have it like that. -/
def markAsync (e : Engine) (i : InstanceId) (component : Nat) (waits : Bool) : Engine :=
  match e.instance? i with
  | none => e
  | some s =>
    if component < s.async.size ∧ s.isAsync component ≠ waits then
      (e.modifyInstance i (·.setAsync component waits)).record (.asyncChanged i component)
    else e

/-- Marks a component as waiting: for a flow that it called, or for the host. -/
def startAsync (e : Engine) (child : Option InstanceId) (i : InstanceId) (component : Nat) :
    Engine :=
  (e.record (.awaited child i component)).markAsync i component true

/-- Takes the mark of a waiting component away. -/
def clearAsync (e : Engine) (child : Option InstanceId) (i : InstanceId) (component : Nat) :
    Engine :=
  (e.record (.released child i component)).markAsync i component false

/-- Whether a step of the instance is running. -/
def isExecuting (e : Engine) (i : InstanceId) : Bool := e.executing.any (·.1 == i)

/-- Takes the mark of a waiting component away and frees the instance if that was the last that
    kept it, unless a step of it is running. -/
def endAsyncWith (free : InstanceId → Engine → Engine) (child : Option InstanceId)
    (i : InstanceId) (component : Nat) (e : Engine) : Engine :=
  if (e.instance? i).isNone then e
  else
    let e := e.clearAsync child i component
    if !e.isExecuting i && e.isCollectible i then free i e else e

/-! ## 4. Destruction -/

/-- Takes an instance out of the forest after its descendants are gone: open progress is released,
    observers are told, and its tasks are dropped. -/
def bury (i : InstanceId) (e : Engine) : Option Instance × Engine :=
  let open_ := ((e.instance? i).map Instance.openComponents).getD []
  let e := open_.foldl (fun e c => e.releaseProgress i c) e
  let e := e.record (.destroyed i)
  let e := { e with queue := e.queue.discard i }
  match e.forest.remove i with
  | some (s, forest) => (some s, { e with forest })
  | none => (none, e)

/-- Destroys an instance, its descendants first, and ends the call that made it. Ending a call can
    free the caller too; `depth` bounds how deep such destructions are nested. -/
def freeWithin : Nat → InstanceId → Engine → Engine
  | 0, _, e => e
  | depth + 1, i, e =>
    match e.instance? i with
    | none => e
    | some s =>
      let e := s.children.foldl (fun e child => freeWithin depth child e) e
      match bury i e with
      | (some s, e) =>
        match s.isAction, s.parent with
        | true, some (parent, component) =>
          endAsyncWith (freeWithin depth) (some i) parent component e
        | _, _ => e
      | (none, e) => e

/-- Destructions go down to descendants, at most as many as there are instances, and go up only
    after one instance less is left. -/
def freeDepth (e : Engine) : Nat := (e.forest.live + 2) * (e.forest.live + 2)

/-- **Destroys an instance and its descendants.** -/
def free (i : InstanceId) (e : Engine) : Engine := freeWithin e.freeDepth i e

/-- Ends the waiting of a component. -/
def endAsync (e : Engine) (child : Option InstanceId) (i : InstanceId) (component : Nat) : Engine :=
  endAsyncWith free child i component e

/-- Frees an instance if nothing can run in it any more. -/
def collect (e : Engine) (i : InstanceId) : Engine := if e.isCollectible i then e.free i else e

/-! ## 5. Creation -/

/-- A fresh instance of a flow and the heap with the arrays of its variables. -/
def freshInstance (flow : Nat) (f : Flow) (parent : Option (InstanceId × Nat)) (isAction : Bool)
    (h : Heap) : Instance × Heap :=
  let (locals, h) := Literal.materializeList f.locals h
  ({ flow, isAction, parent
     values := (List.replicate f.inputCount Value.undefined ++ locals).toArray
     inputCount := f.inputCount
     progress := Array.replicate f.components.length none
     async := Array.replicate f.components.length false }, h)

/-- **Makes an instance of a flow** and pings its components in order. -/
def create (flow : Nat) (parent : Option (InstanceId × Nat)) (isAction : Bool) :
    Act InstanceId := do
  let e ← get
  match e.definition.flows[flow]? with
  | none => throw (.unknownFlow flow)
  | some f =>
    if parent.any fun p => !e.forest.contains p.1 then throw .invalidInstance
    else
      let (s, heap) := freshInstance flow f parent isAction e.heap
      let (i, forest) := e.forest.insert s
      let e := { e with heap, forest }.tellCreated i flow
      set (e.pingAll i (List.range f.components.length))
      return i

end InstrumentFlow.Engine
