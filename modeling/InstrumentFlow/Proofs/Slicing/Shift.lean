import InstrumentFlow.Engine.Schedule
import InstrumentFlow.Proofs.Activity
import InstrumentFlow.Proofs.Engine.Change

/-!
# The past and the moment

What a program does depends on its state, not on how the state came about, and for the most part not
on the moment either. It does the same after a longer past and at another moment.

* `Engine.shift` -- a state with a longer past and at another moment;
* `Engine.bare` -- a state without its past and its moment;
* `clearSlot_shift`, `ping_shift`, `free_shift`, ... -- what is done to a shifted state is done to
  the state itself and then shifted;
* `carries_propagate`, `carries_assign`, `raiseError_shift` -- values and errors on their way.
-/

namespace InstrumentFlow.Engine

/-- The state with a longer past and at another moment. -/
def shift (past : List Event) (now : Nat) (e : Engine) : Engine :=
  { e with journal := e.journal ++ past, clock := now }

/-- The state without its past and its moment. -/
def bare (e : Engine) : Engine := { e with journal := [], clock := 0 }

theorem shift_bare (e : Engine) : e.bare.shift e.journal e.clock = e := rfl

variable {past : List Event} {now : Nat} {e : Engine}

theorem bare_shift : (e.shift past now).bare = e.bare := rfl

/-! ## 1. Parts of the state -/

theorem definition_shift : (e.shift past now).definition = e.definition := rfl

theorem forest_shift : (e.shift past now).forest = e.forest := rfl

theorem globals_shift : (e.shift past now).globals = e.globals := rfl

theorem heap_shift : (e.shift past now).heap = e.heap := rfl

theorem queue_shift : (e.shift past now).queue = e.queue := rfl

theorem stack_shift : (e.shift past now).stack = e.stack := rfl

theorem host_shift : (e.shift past now).host = e.host := rfl

theorem executing_shift : (e.shift past now).executing = e.executing := rfl

theorem stopRequested_shift : (e.shift past now).stopRequested = e.stopRequested := rfl

theorem stopped_shift : (e.shift past now).stopped = e.stopped := rfl

theorem scope_shift : (e.shift past now).scope = e.scope := rfl

theorem instance?_shift (i : InstanceId) : (e.shift past now).instance? i = e.instance? i := rfl

theorem componentRecord_shift (flow component : Nat) :
    (e.shift past now).componentRecord flow component = e.componentRecord flow component := rfl

/-! ## 2. Readers and writers -/

theorem record_shift (event : Event) :
    (e.shift past now).record event = (e.record event).shift past now := rfl

theorem modifyInstance_shift (i : InstanceId) (change : Instance → Instance) :
    (e.shift past now).modifyInstance i change = (e.modifyInstance i change).shift past now := rfl

theorem clearSlot_shift (i : InstanceId) (slot : Nat) :
    (e.shift past now).clearSlot i slot = (e.clearSlot i slot).shift past now := by
  unfold clearSlot
  rw [instance?_shift]
  split
  · split <;> rfl
  · rfl

theorem carries_resolved (activity : Activity) (v : Value) :
    Carries (shift past now) (resolved activity v) (resolved activity v) e := by
  unfold resolved
  refine carries_get ?_
  rw [scope_shift, heap_shift]
  split
  · exact carries_pure _
  · exact carries_throw _

theorem carries_textOf (v : Value) : Carries (shift past now) (textOf v) (textOf v) e := by
  unfold textOf
  refine carries_get ?_
  rw [heap_shift]
  split
  · exact carries_pure _
  · exact carries_set_bind rfl (carries_pure _)

theorem runStream_shift (i : InstanceId) (code : List UInt8) (iterators : List Int32)
    (target : Bool) : runStream i code iterators target (e.shift past now)
      = ((runStream i code iterators target e).1,
        (runStream i code iterators target e).2.shift past now) := by
  unfold runStream
  dsimp only
  rw [scope_shift, stack_shift, heap_shift]
  split
  · rfl
  · split <;> rfl

theorem carries_evaluateIn (activity : Activity) (i : InstanceId) (code : List UInt8)
    (iterators : List Int32) (target : Bool) :
    Carries (shift past now) (evaluateIn activity i code iterators target)
      (evaluateIn activity i code iterators target) e := by
  unfold evaluateIn
  refine carries_get ?_
  rw [runStream_shift]
  rcases runStream i code iterators target e with ⟨result, e'⟩
  refine carries_set_bind rfl ?_
  cases result with
  | ok r => exact carries_pure r
  | error cause => exact carries_throw _

theorem carries_evaluateProperty (i : InstanceId) (component property : Nat)
    (iterators : List Int32) (target : Bool) :
    Carries (shift past now) (evaluateProperty i component property iterators target)
      (evaluateProperty i component property iterators target) e := by
  unfold evaluateProperty
  refine carries_get ?_
  simp only [instance?_shift, componentRecord_shift]
  split
  · exact carries_throw _
  split
  · exact carries_throw _
  split
  · exact carries_throw _
  · exact carries_bind (carries_evaluateIn _ _ _ _ _) fun _ _ => carries_pure _

/-! ## 3. Readiness and the queue -/

theorem isReady_shift (i : InstanceId) (component : Nat) :
    (e.shift past now).isReady i component = e.isReady i component := rfl

theorem failFatally_shift (i : InstanceId) (component : Nat) (message : String) :
    (e.shift past now).failFatally i component message
      = (e.failFatally i component message).shift past now := rfl

theorem enqueue_shift (t : Task) : (e.shift past now).enqueue t
    = ((e.enqueue t).1, (e.enqueue t).2.shift past now) := by
  unfold enqueue
  rw [queue_shift]
  split <;> rfl

theorem ping_shift (i : InstanceId) (component : Nat) : (e.shift past now).ping i component
    = ((e.ping i component).1, (e.ping i component).2.shift past now) := by
  unfold ping
  rw [enqueue_shift, stopRequested_shift, isReady_shift]
  split
  · rfl
  · rcases e.enqueue ⟨i, component, false⟩ with ⟨_ | _, e'⟩ <;> rfl

/-- What is done for each member of a list in turn. -/
theorem foldl_shift {α : Type} {f : Engine → α → Engine}
    (hf : ∀ e x, f (e.shift past now) x = (f e x).shift past now) (xs : List α) (e : Engine) :
    xs.foldl f (e.shift past now) = (xs.foldl f e).shift past now := by
  induction xs generalizing e with
  | nil => rfl
  | cons x xs ih => rw [List.foldl_cons, List.foldl_cons, hf, ih]

theorem pingAll_shift (i : InstanceId) (components : List Nat) :
    (e.shift past now).pingAll i components = (e.pingAll i components).shift past now :=
  foldl_shift (fun _ _ => congrArg Prod.snd (ping_shift _ _)) components e

theorem resetSequenceInputs_shift (i : InstanceId) (component : Nat) :
    (e.shift past now).resetSequenceInputs i component
      = (e.resetSequenceInputs i component).shift past now :=
  foldl_shift (fun _ _ => clearSlot_shift _ _) (e.sequenceInputs i component) e

/-! ## 4. Progress and waiting -/

theorem allocateProgress_shift (i : InstanceId) (component : Nat) (p : Progress) :
    (e.shift past now).allocateProgress i component p
      = (e.allocateProgress i component p).shift past now := by
  unfold allocateProgress hasComponent
  rw [instance?_shift]
  split <;> rfl

theorem releaseProgress_shift (i : InstanceId) (component : Nat) :
    (e.shift past now).releaseProgress i component
      = (e.releaseProgress i component).shift past now := by
  unfold releaseProgress progress?
  rw [instance?_shift]
  split <;> rfl

theorem settleProgress_shift (i : InstanceId) (component : Nat) (hadProgress : Bool)
    (p : Option Progress) : (e.shift past now).settleProgress i component hadProgress p
      = (e.settleProgress i component hadProgress p).shift past now := by
  unfold settleProgress hasComponent
  rw [instance?_shift]
  split
  · dsimp only
    split <;> rfl
  · rfl

theorem markAsync_shift (i : InstanceId) (component : Nat) (waits : Bool) :
    (e.shift past now).markAsync i component waits
      = (e.markAsync i component waits).shift past now := by
  unfold markAsync
  rw [instance?_shift]
  split
  · rfl
  · split <;> rfl

theorem startAsync_shift (child : Option InstanceId) (i : InstanceId) (component : Nat) :
    (e.shift past now).startAsync child i component
      = (e.startAsync child i component).shift past now :=
  markAsync_shift (e := e.record (.awaited child i component)) i component true

theorem clearAsync_shift (child : Option InstanceId) (i : InstanceId) (component : Nat) :
    (e.shift past now).clearAsync child i component
      = (e.clearAsync child i component).shift past now :=
  markAsync_shift (e := e.record (.released child i component)) i component false

theorem isCollectible_shift (i : InstanceId) :
    (e.shift past now).isCollectible i = e.isCollectible i := rfl

theorem isExecuting_shift (i : InstanceId) :
    (e.shift past now).isExecuting i = e.isExecuting i := rfl

/-! ## 5. Ends and beginnings of instances -/

theorem endAsyncWith_shift {free : InstanceId → Engine → Engine}
    (hf : ∀ i e, free i (e.shift past now) = (free i e).shift past now)
    (child : Option InstanceId) (i : InstanceId) (component : Nat) (e : Engine) :
    endAsyncWith free child i component (e.shift past now)
      = (endAsyncWith free child i component e).shift past now := by
  unfold endAsyncWith
  dsimp only
  rw [instance?_shift, clearAsync_shift, isExecuting_shift, isCollectible_shift, hf]
  split
  · rfl
  · split <;> rfl

theorem bury_shift (i : InstanceId) (e : Engine) : bury i (e.shift past now)
    = ((bury i e).1, (bury i e).2.shift past now) := by
  unfold bury
  dsimp only
  rw [instance?_shift, foldl_shift fun _ _ => releaseProgress_shift _ _]
  rw [record_shift, forest_shift]
  split <;> rfl

theorem freeWithin_shift (depth : Nat) (i : InstanceId) (e : Engine) :
    freeWithin depth i (e.shift past now) = (freeWithin depth i e).shift past now := by
  -- along the nested destructions
  induction depth generalizing i e with
  | zero => rfl
  | succ depth ih =>
    unfold freeWithin
    rw [instance?_shift]
    split
    · rfl
    dsimp only
    rw [foldl_shift fun e child => ih child e, bury_shift]
    rcases bury i (_ : Engine) with ⟨_ | s, e'⟩
    · rfl
    · dsimp only
      split
      · exact endAsyncWith_shift ih _ _ _ _
      · rfl

theorem free_shift (i : InstanceId) :
    (e.shift past now).free i = (e.free i).shift past now := freeWithin_shift _ i e

theorem endAsync_shift (child : Option InstanceId) (i : InstanceId) (component : Nat) :
    (e.shift past now).endAsync child i component
      = (e.endAsync child i component).shift past now :=
  endAsyncWith_shift (fun _ _ => free_shift _) child i component e

theorem collect_shift (i : InstanceId) :
    (e.shift past now).collect i = (e.collect i).shift past now := by
  unfold collect
  rw [isCollectible_shift, free_shift]
  split <;> rfl

theorem carries_create (flow : Nat) (parent : Option (InstanceId × Nat)) (isAction : Bool) :
    Carries (shift past now) (create flow parent isAction) (create flow parent isAction) e := by
  unfold create
  refine carries_get ?_
  rw [definition_shift, forest_shift, heap_shift]
  split
  · exact carries_throw _
  split
  · exact carries_throw _
  · next f _ _ =>
    exact carries_set_bind (pingAll_shift (e := e.begun flow f parent isAction) _ _)
      (carries_pure _)

/-! ## 6. Values on their way -/

theorem offerSlot_shift (i : InstanceId) (slot : Nat) (held v : Value) :
    (e.shift past now).offerSlot i slot held v = (e.offerSlot i slot held v).shift past now := by
  unfold offerSlot
  rw [heap_shift]
  split <;> rfl

theorem carries_deliver (i : InstanceId) (v : Value) (c : Connection) :
    Carries (shift past now) (deliver i v c) (deliver i v c) e := by
  unfold deliver
  refine carries_get ?_
  dsimp only
  rw [instance?_shift]
  split
  · exact carries_throw _
  split
  · exact carries_pure _
  · simp only [offerSlot_shift, record_shift, ping_shift, clearSlot_shift]
    split
    · exact carries_set rfl
    · exact carries_set rfl

theorem carries_deliverAll (i : InstanceId) (v : Value) (cs : List Connection) :
    Carries (shift past now) (deliverAll i v cs) (deliverAll i v cs) e := by
  induction cs generalizing e with
  | nil => exact carries_pure _
  | cons c cs ih => exact carries_bind (carries_deliver i v c) fun _ _ => ih

theorem carries_propagate (i : InstanceId) (component output : Nat) (v : Value) :
    Carries (shift past now) (propagate i component output v) (propagate i component output v)
      e := by
  unfold propagate
  refine carries_get ?_
  rw [stopRequested_shift, stopped_shift, executing_shift, resetSequenceInputs_shift]
  split
  · exact carries_pure _
  rw [← apply_ite (shift past now)]
  dsimp only
  generalize (if e.executing = some (i, component) then e.resetSequenceInputs i component else e)
    = e'
  refine carries_set_bind rfl ?_
  simp only [instance?_shift, componentRecord_shift]
  split
  · exact carries_throw _
  split
  · exact carries_throw _
  split
  · exact carries_pure _
  · exact carries_bind (carries_resolved _ _) fun _ _ => carries_deliverAll _ _ _

theorem carries_pulse (i : InstanceId) (component : Nat) :
    Carries (shift past now) (pulse i component) (pulse i component) e :=
  carries_propagate i component sequenceOutput .null

theorem carries_coerced (prior v : Value) :
    Carries (shift past now) (coerced prior v) (coerced prior v) e := by
  unfold coerced
  refine carries_get ?_
  rw [heap_shift]
  split
  · exact carries_pure _
  · exact carries_set_bind rfl (carries_pure _)

theorem carries_writeNative (id : UInt32) (v : Value) :
    Carries (shift past now) (writeNative id v) (writeNative id v) e := by
  unfold writeNative
  refine carries_get ?_
  rw [host_shift, heap_shift, record_shift, ← apply_ite (shift past now)]
  dsimp only
  generalize (if e.host.listens then e.record (.nativeWritten id (e.heap.image v)) else e) = e'
  rw [host_shift]
  split
  · exact carries_set rfl
  · exact carries_set_bind rfl (carries_throw _)

theorem carries_assign (i : InstanceId) (component : Nat) (destination value : Value) :
    Carries (shift past now) (assign i component destination value)
      (assign i component destination value) e := by
  unfold assign
  refine carries_bind (carries_resolved _ _) fun v e => ?_
  split
  · exact carries_propagate _ _ _ _
  · exact carries_writeNative _ _
  · refine carries_get ?_
    rw [heap_shift]
    split
    · exact carries_throw _
    · exact carries_bind (carries_coerced _ _) fun _ _ => carries_modify rfl
  · refine carries_get ?_
    rw [instance?_shift]
    split
    · exact carries_throw _
    split
    · exact carries_throw _
    · exact carries_bind (carries_coerced _ _) fun _ _ => carries_modify rfl
  · refine carries_get ?_
    rw [globals_shift]
    split
    · exact carries_throw _
    · exact carries_bind (carries_coerced _ _) fun _ _ => carries_modify rfl
  · exact carries_throw _

/-! ## 7. Errors on their way -/

theorem findCatcher_shift (steps : Nat) :
    (e.shift past now).findCatcher steps = e.findCatcher steps := by
  funext i
  induction steps generalizing i with
  | zero => rfl
  | succ steps ih =>
    unfold findCatcher
    simp only [instance?_shift, ih]
    rfl

theorem markFailed_shift (catcher : InstanceId) (steps : Nat) (i : InstanceId) (e : Engine) :
    markFailed catcher steps i (e.shift past now)
      = (markFailed catcher steps i e).shift past now := by
  induction steps generalizing i e with
  | zero => rfl
  | succ steps ih =>
    unfold markFailed
    dsimp only
    rw [instance?_shift, modifyInstance_shift]
    split
    · rfl
    split
    · rfl
    split
    · exact ih _ _
    · rfl

theorem sendError_shift (i : InstanceId) (component output : Nat) (message : String) :
    (e.shift past now).sendError i component output message
      = (e.sendError i component output message).shift past now := by
  have hsend : Carries (shift past now) (propagate i component output (.string message)) _ e :=
    carries_propagate i component output (.string message)
  unfold Carries at hsend
  unfold sendError
  rw [hsend]
  cases propagate i component output (.string message) e <;> rfl

theorem routeError_shift (i : InstanceId) (component : Nat) (catcher : InstanceId)
    (catchComponent : Nat) (message : String) :
    (e.shift past now).routeError i component catcher catchComponent message
      = (e.routeError i component catcher catchComponent message).shift past now := by
  unfold routeError
  rw [show (e.shift past now).chainBound = e.chainBound from rfl, markFailed_shift]
  dsimp only
  rw [record_shift, allocateProgress_shift, enqueue_shift]
  rcases enqueue _ _ with ⟨_ | _, e'⟩ <;> rfl

theorem raiseError_shift (i : InstanceId) (component : Nat) (message : String) :
    (e.shift past now).raiseError i component message
      = (e.raiseError i component message).shift past now := by
  unfold raiseError
  rw [show (e.shift past now).chainBound = e.chainBound from rfl, findCatcher_shift,
    instance?_shift, definition_shift]
  cases e.instance? i with
  | none => rfl
  | some s =>
    dsimp only
    cases e.definition.component? s.flow component with
    | none => exact failFatally_shift i component message
    | some record =>
      dsimp only
      cases record.catchOutput with
      | some output => exact sendError_shift i component output.toNat message
      | none =>
        dsimp only
        generalize Option.bind _ (e.findCatcher e.chainBound) = caught
        rcases caught with _ | ⟨catcher, catchComponent⟩
        · exact failFatally_shift i component message
        · exact routeError_shift i component catcher catchComponent message

end InstrumentFlow.Engine
