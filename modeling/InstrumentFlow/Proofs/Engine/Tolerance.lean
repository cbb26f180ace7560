import InstrumentFlow.Engine.Perform
import InstrumentFlow.Proofs.Activity
import InstrumentFlow.Proofs.Engine.Calm

/-!
# What every activity keeps

Most activities do the same few things in some order: they write slots, variables and elements, tell
of that, queue tasks and set or take away marks. A relation between states that all of these things
keep is kept by the activities.

* `Event.isPassing` -- the events that every such activity may tell;
* `Kind.isModest` -- the kinds of components whose steps are such activities;
* `Instance.SameCall` -- an instance runs the same flow for the same caller;
* `Tolerant` -- **a relation between states that small changes keep**, those of the progress of some
  components among them;
* `Tolerant.ping`, `Tolerant.failFatally`, ... -- functions on the state keep it;
* `Maintains` -- an activity keeps a relation from any state, and one rule for each way to put such
  activities together;
* `maintains_propagate`, `maintains_assign`, ... -- activities that keep every tolerant relation;
* `maintains_stepLoop`, `maintains_execute`, ... -- so do the steps of most components;
* `maintains_setInput`, ... -- and so does what the host does to storage;
* `Tolerant.free`, `Tolerant.tidy`, `Tolerant.shutdown` -- ends of instances keep it if the end of a
  single one does.
-/

namespace InstrumentFlow

/-! ## 1. Small changes -/

/-- Whether an event tells neither of the life of an instance nor of the progress, the steps or the
    requests of a component, nor of the end of a call. -/
def Event.isPassing : Event → Bool
  | created _ _ | destroyed _ | progressChanged _ _ | hostCalled _ _ _ | stepped _ | ended _ _ _
  | returned _ _ _ | awaited _ _ _ | dispatched _ _ _ | collected _ _ _ _ => false
  | _ => true

/-- Whether components of the kind begin and end no instance, send no request and are none of the
    host. -/
def Kind.isModest : Kind → Bool
  | finish | callAction | scpi | host _ => false
  | _ => true

/-- The instance runs the same flow, for the same caller. -/
structure Instance.SameCall (s s' : Instance) : Prop where
  flow_eq : s'.flow = s.flow
  parent_eq : s'.parent = s.parent
  isAction_eq : s'.isAction = s.isAction

namespace Instance.SameCall

theorem refl (s : Instance) : s.SameCall s := ⟨rfl, rfl, rfl⟩

theorem trans {s s' s'' : Instance} (h : s.SameCall s') (h' : s'.SameCall s'') : s.SameCall s'' :=
  ⟨h'.flow_eq.trans h.flow_eq, h'.parent_eq.trans h.parent_eq,
    h'.isAction_eq.trans h.isAction_eq⟩

end Instance.SameCall

namespace Engine

/-- **A relation between states that small changes keep**; `own` tells of which components the
    progress may change. -/
structure Tolerant (own : InstanceId → Nat → Bool) (R : Engine → Engine → Prop) : Prop where
  refl (e : Engine) : R e e
  trans {e e' e'' : Engine} : R e e' → R e' e'' → R e e''
  /-- What is neither told nor kept in instances or in the ledger. -/
  beside {e e' : Engine} (hf : e'.forest = e.forest) (hl : e'.ledger = e.ledger)
    (hj : e'.journal = e.journal) : R e e'
  record (e : Engine) {event : Event} (h : event.isPassing = true) : R e (e.record event)
  modifyInstance (e : Engine) (i : InstanceId) {change : Instance → Instance}
    (ha : ∀ s : Instance, s.SameCall (change s)) (hp : ∀ s, (change s).progress = s.progress) :
    R e (e.modifyInstance i change)
  setProgress (e : Engine) {i : InstanceId} {component : Nat} (ho : own i component = true)
    (p : Option Progress) : R e (e.setProgress i component p)
  noteProgress (e : Engine) {i : InstanceId} {component : Nat} (ho : own i component = true) :
    R e (e.record (.progressChanged i component))

namespace Tolerant

variable {own : InstanceId → Nat → Bool} {R : Engine → Engine → Prop} (hR : Tolerant own R)
include hR

/-! ## 2. States -/

theorem breakDown (e : Engine) (b : Breakdown) : R e (e.breakDown b) := hR.beside rfl rfl rfl

theorem writeSlot (e : Engine) (i : InstanceId) (slot : Nat) (v : Value) :
    R e (e.writeSlot i slot v) := by
  have hwrite : R e (e.modifyInstance i (·.setValue slot v)) :=
    hR.modifyInstance e i (fun _ => ⟨rfl, rfl, rfl⟩) fun _ => rfl
  exact hR.trans hwrite (hR.record _ rfl)

theorem writeGlobal (e : Engine) (index : Nat) (v : Value) : R e (e.writeGlobal index v) := by
  have hwrite : R e { e with globals := e.globals.setIfInBounds index v } := hR.beside rfl rfl rfl
  exact hR.trans hwrite (hR.record _ rfl)

theorem writeElement (e : Engine) (a : ArrayId) (index : Nat) (v : Value) :
    R e (e.writeElement a index v) := by
  have hwrite : R e { e with heap := e.heap.write a index v } := hR.beside rfl rfl rfl
  exact hR.trans hwrite (hR.record _ rfl)

theorem noteAssigned (e : Engine) (destination v : Value) : R e (e.noteAssigned destination v) :=
  hR.record e rfl

theorem clearSlot (e : Engine) (i : InstanceId) (slot : Nat) : R e (e.clearSlot i slot) := by
  unfold Engine.clearSlot
  split
  · split
    · exact hR.refl e
    · exact hR.writeSlot e i slot .undefined
  · exact hR.refl e

theorem resetSequenceInputs (e : Engine) (i : InstanceId) (component : Nat) :
    R e (e.resetSequenceInputs i component) := by
  unfold Engine.resetSequenceInputs
  generalize e.sequenceInputs i component = slots
  induction slots generalizing e with
  | nil => exact hR.refl e
  | cons slot slots ih => exact hR.trans (hR.clearSlot e i slot) (ih _)

theorem fail (e : Engine) (i : InstanceId) :
    R e (e.modifyInstance i fun s => { s with failed := true }) :=
  hR.modifyInstance e i (fun _ => ⟨rfl, rfl, rfl⟩) fun _ => rfl

theorem failFatally (e : Engine) (i : InstanceId) (component : Nat) (message : String) :
    R e (e.failFatally i component message) := by
  have herror {e : Engine} : R e { e with lastError := some message } := hR.beside rfl rfl rfl
  have htold {e : Engine} : R e (e.record (.failed i component message)) := hR.record e rfl
  have hasked {e : Engine} : R e (e.record .stopAsked) := hR.record e rfl
  have hfailed := hR.trans (hR.trans (hR.trans (hR.fail e i) herror) htold) hasked
  exact hR.trans hfailed (hR.beside rfl rfl rfl)

theorem enqueue (e : Engine) (t : Task) : R e (e.enqueue t).2 := by
  unfold Engine.enqueue
  split
  · next queue _ =>
    have hqueue : R e { e with queue } := hR.beside rfl rfl rfl
    exact hR.trans hqueue (hR.record _ rfl)
  · exact hR.record e rfl

theorem ping (e : Engine) (i : InstanceId) (component : Nat) : R e (e.ping i component).2 := by
  have hqueue : R e (e.enqueue ⟨i, component, false⟩).2 := hR.enqueue e _
  unfold Engine.ping
  split
  · exact hR.refl e
  · split
    · next he =>
      rw [he] at hqueue
      exact hqueue
    · next he =>
      rw [he] at hqueue
      exact hR.trans hqueue (hR.failFatally _ i component _)

theorem pingAll (e : Engine) (i : InstanceId) (components : List Nat) :
    R e (e.pingAll i components) := by
  unfold Engine.pingAll
  induction components generalizing e with
  | nil => exact hR.refl e
  | cons c components ih => exact hR.trans (hR.ping e i c) (ih _)

theorem offerSlot (e : Engine) (i : InstanceId) (slot : Nat) (held v : Value) :
    R e (e.offerSlot i slot held v) := by
  unfold Engine.offerSlot
  split
  · exact hR.refl e
  · exact hR.writeSlot e i slot v
  · exact hR.trans (hR.breakDown e .endlessArray) (hR.writeSlot _ i slot v)

theorem markFailed (catcher : InstanceId) (steps : Nat) (i : InstanceId) (e : Engine) :
    R e (Engine.markFailed catcher steps i e) := by
  induction steps generalizing i e with
  | zero => exact hR.refl e
  | succ steps ih =>
    unfold Engine.markFailed
    split
    · exact hR.refl e
    · split
      · exact hR.refl e
      · dsimp only
        split
        · exact hR.trans (hR.fail e i) (ih _ _)
        · exact hR.fail e i

theorem markAsync (e : Engine) (i : InstanceId) (component : Nat) (waits : Bool) :
    R e (e.markAsync i component waits) := by
  unfold Engine.markAsync
  split
  · exact hR.refl e
  · split
    · have hmark : R e (e.modifyInstance i (·.setAsync component waits)) :=
        hR.modifyInstance e i (fun _ => ⟨rfl, rfl, rfl⟩) fun _ => rfl
      exact hR.trans hmark (hR.record _ rfl)
    · exact hR.refl e

theorem clearAsync (e : Engine) (child : Option InstanceId) (i : InstanceId) (component : Nat) :
    R e (e.clearAsync child i component) :=
  hR.trans (hR.record e rfl) (hR.markAsync _ i component false)

theorem log (e : Engine) (i : InstanceId) (component : Nat) (entry : LogEntry) :
    R e (e.log i component entry) := hR.record e rfl

theorem runStream (e : Engine) (i : InstanceId) (code : List UInt8) (iterators : List Int32)
    (target : Bool) : R e (Engine.runStream i code iterators target e).2 := by
  unfold Engine.runStream
  dsimp only
  split
  · exact hR.beside rfl rfl rfl
  · dsimp only
    split <;> exact hR.beside rfl rfl rfl

theorem settleProgress (e : Engine) {i : InstanceId} {component : Nat}
    (ho : own i component = true) (hadProgress : Bool) (p : Option Progress) :
    R e (e.settleProgress i component hadProgress p) := by
  have hset := hR.setProgress e ho p
  unfold Engine.settleProgress
  split
  · dsimp only
    split
    · exact hR.trans hset (hR.noteProgress _ ho)
    · exact hset
  · exact hR.refl e

theorem allocateProgress (e : Engine) {i : InstanceId} {component : Nat}
    (ho : own i component = true) (p : Progress) : R e (e.allocateProgress i component p) := by
  unfold Engine.allocateProgress
  split
  · exact hR.trans (hR.setProgress e ho _) (hR.noteProgress _ ho)
  · exact hR.refl e

theorem releaseProgress (e : Engine) {i : InstanceId} {component : Nat}
    (ho : own i component = true) : R e (e.releaseProgress i component) := by
  unfold Engine.releaseProgress
  split
  · exact hR.trans (hR.setProgress e ho _) (hR.noteProgress _ ho)
  · exact hR.refl e

theorem takeTask (e : Engine) (t : Task) : R e (e.takeTask t) := by
  have hpop : R e { e with queue := e.queue.pop } := hR.beside rfl rfl rfl
  exact hR.trans hpop (hR.record _ rfl)

theorem debuggerBlocks (e : Engine) (t : Task) : R e (e.debuggerBlocks t).2 := by
  unfold Engine.debuggerBlocks
  split
  · exact hR.refl e
  · exact hR.refl e
  · exact hR.refl e
  · dsimp only
    split
    · exact hR.beside rfl rfl rfl
    · split
      · exact hR.beside rfl rfl rfl
      · exact hR.refl e

theorem clearInput (e : Engine) (i : InstanceId) (slot : Nat) : R e (e.clearInput i slot) := by
  unfold Engine.clearInput
  split
  · exact hR.refl e
  · split
    · exact hR.clearSlot e i slot
    · exact hR.refl e

/-- An evaluation on a stack of its own. -/
theorem evaluateCode (e : Engine) (i : InstanceId) (code : List UInt8) (iterators : List Int32)
    (stackCapacity : Nat) (target : Bool) :
    R e (e.evaluateCode i code iterators stackCapacity target).2 := by
  have hstack {e : Engine} (stack : Expression.Stack) : R e { e with stack } :=
    hR.beside rfl rfl rfl
  have hrun := hR.trans (hstack { capacity := stackCapacity })
    (hR.runStream { e with stack := { capacity := stackCapacity } } i code iterators target)
  unfold Engine.evaluateCode
  dsimp only
  split
  · exact hR.trans hrun (hstack e.stack)
  · exact hR.trans hrun (hstack e.stack)

end Tolerant

/-! ## 3. Activities -/

/-- **An activity keeps a relation**, from whatever state. -/
def Maintains {α : Type} (R : Engine → Engine → Prop) (a : Act α) : Prop :=
  ∀ e, Upholds (R e) (fun _ _ => True) a e

namespace Maintains

variable {R : Engine → Engine → Prop} {β : Type}

/-- An activity that reads the state first. -/
theorem get {f : Engine → Act β} (hf : ∀ e, Upholds (R e) (fun _ _ => True) (f e) e) :
    Maintains R (MonadState.get >>= f) := fun e => upholds_get (hf e)

theorem read {f : Engine → Act β} (hf : ∀ e, Maintains R (f e)) :
    Maintains R (MonadState.get >>= f) :=
  get fun e => hf e e

theorem modify {g : Engine → Engine} (hg : ∀ e, R e (g e)) :
    Maintains R (modify g : Act PUnit) :=
  fun e => upholds_modify (hg e) trivial

end Maintains

namespace Tolerant

variable {own : InstanceId → Nat → Bool} {R : Engine → Engine → Prop} (hR : Tolerant own R)
include hR

section

variable {α β : Type} {e e' : Engine}

theorem pure (r : α) : Maintains R (Pure.pure r : Act α) :=
  fun e => upholds_pure (hR.refl e) trivial

theorem throw (err : FlowError) : Maintains R (MonadExcept.throw err : Act α) :=
  fun e => upholds_throw (hR.refl e)

/-- After a state that keeps the relation an activity goes on. -/
theorem after {a : Act α} (ha : Maintains R a) (h : R e e') :
    Upholds (R e) (fun _ _ => True) a e' :=
  (ha e').mono (fun _ h' => hR.trans h h') fun _ _ _ _ => trivial

theorem bind {a : Act α} {f : α → Act β} (ha : Maintains R a) (hf : ∀ r, Maintains R (f r)) :
    Maintains R (a >>= f) :=
  fun e => upholds_bind (ha e) fun r _ h _ => hR.after (hf r) h

end

/-! ## 4. Evaluation -/

theorem maintains_resolved (activity : Activity) (v : Value) :
    Maintains R (resolved activity v) := by
  unfold resolved
  refine .read fun e => ?_
  split
  · exact hR.pure _
  · exact hR.throw _

theorem maintains_textOf (v : Value) : Maintains R (textOf v) := by
  unfold textOf
  refine .get fun e => ?_
  split
  · exact hR.pure _ e
  · exact upholds_set_bind (hR.after (hR.pure _) (hR.breakDown e .endlessArray))

theorem maintains_evaluateIn (activity : Activity) (i : InstanceId) (code : List UInt8)
    (iterators : List Int32) (target : Bool) :
    Maintains R (evaluateIn activity i code iterators target) := by
  unfold evaluateIn
  refine .get fun e => upholds_set_bind ?_
  have hrun : R e _ := hR.runStream e i code iterators target
  dsimp only
  split
  · exact hR.after (hR.pure _) hrun
  · exact hR.after (hR.throw _) hrun

theorem maintains_evaluateProperty (i : InstanceId) (component property : Nat)
    (iterators : List Int32) (target : Bool) :
    Maintains R (evaluateProperty i component property iterators target) := by
  unfold evaluateProperty
  refine .read fun e => ?_
  split
  · exact hR.throw _
  · split
    · exact hR.throw _
    · split
      · exact hR.throw _
      · exact hR.bind (hR.maintains_evaluateIn _ _ _ _ _) fun _ => hR.pure _

/-! ## 5. Values on their way -/

theorem maintains_deliver (i : InstanceId) (v : Value) (c : Connection) :
    Maintains R (deliver i v c) := by
  unfold deliver
  refine .get fun e => ?_
  dsimp only
  split
  · exact hR.throw _ e
  next s _ =>
  split
  · exact hR.pure _ e
  next held _ =>
  have hoffer : R e _ := hR.offerSlot e i c.targetInput.toNat held v
  have hsent {e : Engine} : R e
      (e.record (.delivered i c.targetInput.toNat c.targetComponent.toNat v)) := hR.record e rfl
  have hping := hR.trans (hR.trans hoffer hsent) (hR.ping _ i c.targetComponent.toNat)
  refine upholds_set ?_ trivial
  split
  · exact hR.trans hping (hR.clearSlot _ i _)
  · exact hping

theorem maintains_deliverAll (i : InstanceId) (v : Value) (cs : List Connection) :
    Maintains R (deliverAll i v cs) := by
  induction cs with
  | nil => exact hR.pure _
  | cons c cs ih => exact hR.bind (hR.maintains_deliver i v c) fun _ => ih

theorem maintains_propagate (i : InstanceId) (component output : Nat) (v : Value) :
    Maintains R (propagate i component output v) := by
  unfold propagate
  refine .get fun e => ?_
  split
  · exact hR.pure _ e
  have hreset : R e (if e.executing = some (i, component) then
      e.resetSequenceInputs i component else e) := by
    split
    · exact hR.resetSequenceInputs e i component
    · exact hR.refl e
  generalize (if e.executing = some (i, component) then
    e.resetSequenceInputs i component else e) = e₁ at hreset ⊢
  have hsend : R e₁ (e₁.record (.sent i component output v)) := hR.record e₁ rfl
  have hsent := hR.trans hreset hsend
  refine upholds_set_bind ?_
  split
  · exact hR.after (hR.throw _) hsent
  · split
    · exact hR.after (hR.throw _) hsent
    · split
      · exact hR.after (hR.pure _) hsent
      · refine hR.after (hR.bind (hR.maintains_resolved _ v) fun w => ?_) hsent
        exact hR.maintains_deliverAll i w _

theorem maintains_pulse (i : InstanceId) (component : Nat) : Maintains R (pulse i component) :=
  hR.maintains_propagate i component _ _

theorem sendError (e : Engine) (i : InstanceId) (component output : Nat) (message : String) :
    R e (e.sendError i component output message) := by
  have hsend : Upholds (R e) _ _ e := hR.maintains_propagate i component output (.string message) e
  unfold Engine.sendError
  split
  · next e' he => exact (hsend.of_ok he).1
  · next err e' he => exact hR.trans (hsend.of_error he) (hR.failFatally e' i component _)

/-! ## 6. Assignments -/

theorem maintains_coerced (prior v : Value) : Maintains R (coerced prior v) := by
  unfold coerced
  refine .get fun e => ?_
  split
  · exact hR.pure _ e
  · exact upholds_set_bind (hR.after (hR.pure _) (hR.breakDown e .endlessArray))

theorem maintains_writeNative (id : UInt32) (v : Value) : Maintains R (writeNative id v) := by
  unfold writeNative
  refine .get fun e => ?_
  have htold : R e
      (if e.host.listens then e.record (.nativeWritten id (e.heap.image v)) else e) := by
    split
    · exact hR.record e rfl
    · exact hR.refl e
  generalize (if e.host.listens then e.record (.nativeWritten id (e.heap.image v)) else e) = e₁
    at htold ⊢
  dsimp only
  split
  · exact upholds_set (hR.trans htold (hR.beside rfl rfl rfl)) trivial
  · exact upholds_set_bind (hR.after (hR.throw _) htold)

theorem maintains_assign (i : InstanceId) (component : Nat) (destination value : Value) :
    Maintains R (assign i component destination value) := by
  have hcoerced (prior v : Value) {g : Value → Engine → Engine}
      (hg : ∀ w e, R e (g w e)) :
      Maintains R (do let w ← coerced prior v; modify (g w) : Act PUnit) :=
    hR.bind (hR.maintains_coerced prior v) fun w => .modify (hg w)
  unfold assign
  refine hR.bind (hR.maintains_resolved _ value) fun v => ?_
  split
  · exact hR.maintains_propagate i component _ v
  · exact hR.maintains_writeNative _ v
  · refine .read fun e => ?_
    split
    · exact hR.throw _
    · exact hcoerced _ v fun w e => hR.trans (hR.noteAssigned e _ w) (hR.writeElement _ _ _ w)
  · refine .read fun e => ?_
    split
    · exact hR.throw _
    · split
      · exact hR.throw _
      · exact hcoerced _ v fun w e => hR.trans (hR.noteAssigned e _ w) (hR.writeSlot _ _ _ w)
  · refine .read fun e => ?_
    split
    · exact hR.throw _
    · exact hcoerced _ v fun w e => hR.trans (hR.noteAssigned e _ w) (hR.writeGlobal _ _ w)
  · exact hR.throw _

theorem maintains_assignAnswer (i : InstanceId) (component : Nat) (body : List UInt8)
    (answer : String) : Maintains R (assignAnswer i component body answer) := by
  unfold assignAnswer
  exact hR.bind (hR.maintains_evaluateIn _ i body [] true) fun r =>
    hR.bind (hR.maintains_assign i component r.1 _) fun _ => hR.pure _

/-! ## 7. Steps -/

theorem maintains_stepPass (i : InstanceId) (index : Nat) : Maintains R (stepPass i index) := by
  unfold stepPass
  exact hR.bind (hR.maintains_pulse i index) fun _ => hR.pure _

theorem maintains_stepOutput (i : InstanceId) (index : Nat) (c : Component) :
    Maintains R (stepOutput i index c) := by
  unfold stepOutput
  refine .read fun e => ?_
  dsimp only
  split
  · exact hR.throw _
  · exact hR.throw _
  · exact hR.throw _
  · exact hR.bind (hR.maintains_propagate _ _ _ _) fun _ => hR.pure _

theorem maintains_stepEvaluate (i : InstanceId) (index : Nat) :
    Maintains R (stepEvaluate i index) := by
  unfold stepEvaluate
  exact hR.bind (hR.maintains_evaluateProperty _ _ _ _ _) fun v =>
    hR.bind (hR.maintains_propagate _ _ _ v) fun _ =>
    hR.bind (hR.maintains_pulse i index) fun _ => hR.pure _

theorem maintains_assignPairs (i : InstanceId) (index : Nat) (pairs : List Nat) :
    Maintains R (assignPairs i index pairs) := by
  induction pairs with
  | nil => exact hR.pure _
  | cons pair pairs ih =>
    have hpair : Maintains R (assignPair i index pair) := by
      unfold assignPair
      exact hR.bind (hR.maintains_evaluateProperty _ _ _ _ _) fun d =>
        hR.bind (hR.maintains_evaluateProperty _ _ _ _ _) fun v => hR.maintains_assign i index d v
    exact hR.bind hpair fun _ => ih

theorem maintains_stepSetVariable (i : InstanceId) (index : Nat) (c : Component) :
    Maintains R (stepSetVariable i index c) := by
  unfold stepSetVariable
  exact hR.bind (hR.maintains_assignPairs i index _) fun _ =>
    hR.bind (hR.maintains_pulse i index) fun _ => hR.pure _

theorem maintains_stepIsTrue (i : InstanceId) (index : Nat) : Maintains R (stepIsTrue i index) := by
  unfold stepIsTrue
  exact hR.bind (hR.maintains_evaluateProperty _ _ _ _ _) fun v => .read fun e =>
    hR.bind (hR.maintains_propagate _ _ _ _) fun _ => hR.pure _

theorem maintains_stepLog (i : InstanceId) (index : Nat) : Maintains R (stepLog i index) := by
  unfold stepLog
  exact hR.bind (hR.maintains_evaluateProperty _ _ _ _ _) fun v =>
    hR.bind (hR.maintains_textOf v) fun text =>
    hR.bind (.modify fun e => hR.log e i index _) fun _ =>
    hR.bind (hR.maintains_pulse i index) fun _ => hR.pure _

theorem maintains_stepError (i : InstanceId) (index : Nat) : Maintains R (stepError i index) := by
  unfold stepError
  exact hR.bind (hR.maintains_evaluateProperty _ _ _ _ _) fun v =>
    hR.bind (hR.maintains_textOf v) fun text => hR.throw _

section

variable {i : InstanceId} {index : Nat} (ho : own i index = true)
include ho

theorem maintains_checkOut : Maintains R (checkOut i index) := by
  unfold checkOut
  exact .get fun e => upholds_set_bind (hR.after (hR.pure _) (hR.setProgress e ho none))

theorem maintains_checkIn (hadProgress : Bool) (p : Option Progress) :
    Maintains R (checkIn i index hadProgress p) :=
  .modify fun e => hR.settleProgress e ho hadProgress p

theorem maintains_stepCatch : Maintains R (stepCatch i index) := by
  unfold stepCatch
  refine hR.bind (hR.maintains_checkOut ho) fun p => ?_
  split
  · exact hR.bind (hR.maintains_checkIn ho true none) fun _ =>
      hR.bind (hR.maintains_propagate _ _ _ _) fun _ =>
      hR.bind (hR.maintains_pulse i index) fun _ => hR.pure _
  · exact hR.pure _

theorem maintains_stepDelay : Maintains R (stepDelay i index) := by
  have hbegin : Maintains R (beginDelay i index) := by
    unfold beginDelay
    refine hR.bind (hR.maintains_evaluateProperty _ _ _ _ _) fun v => .get fun e => ?_
    split
    · exact hR.bind (hR.maintains_checkIn ho false _) (fun _ => hR.pure _) e
    · exact upholds_set_bind (hR.after (hR.pure _) (hR.breakDown e .endlessDelay))
  unfold stepDelay
  refine hR.bind (hR.maintains_checkOut ho) fun p => ?_
  split
  · refine .read fun e => ?_
    split
    · exact hR.bind (hR.maintains_checkIn ho true _) fun _ => hR.pure _
    · exact hR.bind (hR.maintains_checkIn ho true none) fun _ =>
        hR.bind (hR.maintains_pulse i index) fun _ => hR.pure _
  · exact hbegin

theorem maintains_stepLoop : Maintains R (stepLoop i index) := by
  have hbegin : Maintains R (beginLoop i index) := by
    unfold beginLoop
    exact hR.bind (hR.maintains_evaluateProperty _ _ _ _ _) fun d =>
      hR.bind (hR.maintains_evaluateProperty _ _ _ _ _) fun first =>
      hR.bind (hR.maintains_evaluateProperty _ _ _ _ _) fun limit =>
      hR.bind (hR.maintains_evaluateProperty _ _ _ _ _) fun step =>
      hR.bind (hR.maintains_assign i index d first) fun _ =>
      hR.bind (hR.maintains_checkIn ho false _) fun _ =>
      hR.bind (hR.maintains_pulse i index) fun _ => hR.pure _
  have hadvance (l : LoopProgress) : Maintains R (advanceLoop i index l) := by
    unfold advanceLoop
    refine hR.bind (hR.maintains_resolved _ _) fun current => ?_
    split
    · exact hR.throw _
    · split
      · exact hR.bind (hR.maintains_checkIn ho true none) fun _ =>
          hR.bind (hR.maintains_propagate _ _ _ _) fun _ => hR.pure _
      · exact hR.bind (hR.maintains_assign i index _ _) fun _ =>
          hR.bind (hR.maintains_checkIn ho true _) fun _ =>
          hR.bind (hR.maintains_pulse i index) fun _ => hR.pure _
  unfold stepLoop
  refine hR.bind (hR.maintains_checkOut ho) fun p => ?_
  split
  · exact hadvance _
  · exact hbegin

/-- **The step of most components.** -/
theorem maintains_execute (handler : Handler) {c : Component} (hk : c.kind.isModest = true) :
    Maintains R (execute handler i index c) := by
  unfold execute
  cases hc : c.kind with
  | start | noop => exact hR.maintains_stepPass i index
  | output => exact hR.maintains_stepOutput i index c
  | evalExpr | constant => exact hR.maintains_stepEvaluate i index
  | setVariable => exact hR.maintains_stepSetVariable i index c
  | isTrue => exact hR.maintains_stepIsTrue i index
  | log => exact hR.maintains_stepLog i index
  | error => exact hR.maintains_stepError i index
  | catchError => exact hR.maintains_stepCatch ho
  | delay => exact hR.maintains_stepDelay ho
  | loop => exact hR.maintains_stepLoop ho
  | finish | callAction | scpi | host _ =>
    rw [hc] at hk
    cases hk

end

/-! ## 8. Storage from outside -/

theorem maintains_withGiven {α : Type} (g : Given) {a : Value → Act α}
    (ha : ∀ v, Maintains R (a v)) : Maintains R (withGiven g a) := by
  unfold withGiven
  refine .get fun e => upholds_set_bind ?_
  have hplace : R e (e.placeGiven g).2 := hR.beside rfl rfl rfl
  exact hR.after (ha _) hplace

theorem maintains_setInput (i : InstanceId) (slot : Nat) (v : Value) :
    Maintains R (setInput i slot v) := by
  unfold setInput
  refine .get fun e => ?_
  split
  · exact hR.throw _ e
  dsimp only
  split
  · exact upholds_set (hR.trans (hR.writeSlot e i slot v) (hR.pingAll _ i _)) trivial
  · exact hR.throw _ e

theorem maintains_setGlobal (index : Nat) (v : Value) : Maintains R (setGlobal index v) := by
  unfold setGlobal
  refine .get fun e => ?_
  split
  · exact upholds_set (hR.writeGlobal e index v) trivial
  · exact hR.throw _ e

/-! ## 9. Ends of instances -/

section

variable (hbury : ∀ i e, R e (bury i e).2)
include hbury

/-- **The end of instances**, from what the end of one does. -/
theorem freeWithin (depth : Nat) (i : InstanceId) (e : Engine) : R e (freeWithin depth i e) := by
  induction depth generalizing i e with
  | zero => exact hR.refl e
  | succ depth ih =>
    have hchildren (ks : List InstanceId) (e : Engine) :
        R e (ks.foldl (fun e k => Engine.freeWithin depth k e) e) := by
      induction ks generalizing e with
      | nil => exact hR.refl e
      | cons k ks ihks => exact hR.trans (ih k e) (ihks _)
    unfold Engine.freeWithin
    split
    · exact hR.refl e
    next s _ =>
    have hburied := hR.trans (hchildren s.children e) (hbury i _)
    dsimp only
    generalize s.children.foldl (fun e k => Engine.freeWithin depth k e) e = e₁ at hburied ⊢
    split
    · next s₁ e₂ he =>
      rw [he] at hburied
      split
      · next parent component _ _ =>
        -- the caller is told, and may go too
        unfold endAsyncWith
        split
        · exact hburied
        · have hclear := hR.trans hburied (hR.clearAsync e₂ (some i) parent component)
          dsimp only
          split
          · exact hR.trans hclear (ih parent _)
          · exact hclear
      · exact hburied
    · next e₂ he =>
      rw [he] at hburied
      exact hburied

theorem free (i : InstanceId) (e : Engine) : R e (e.free i) := hR.freeWithin hbury _ i e

theorem collect (e : Engine) (i : InstanceId) : R e (e.collect i) := by
  unfold Engine.collect
  split
  · exact hR.free hbury i e
  · exact hR.refl e

theorem endAsync (e : Engine) (child : Option InstanceId) (i : InstanceId) (component : Nat) :
    R e (e.endAsync child i component) := by
  have hclear := hR.clearAsync e child i component
  unfold Engine.endAsync endAsyncWith
  split
  · exact hR.refl e
  · dsimp only
    split
    · exact hR.trans hclear (hR.free hbury i _)
    · exact hclear

theorem tidy (e : Engine) (i : InstanceId) (component : Nat) : R e (e.tidy i component) :=
  hR.trans (hR.trans (hR.resetSequenceInputs e i component) (hR.record _ rfl))
    (hR.collect hbury _ i)

theorem shutdown (e : Engine) : R e e.shutdown := by
  have hfree (is : List InstanceId) (e : Engine) : R e (is.foldl (fun e i => e.free i) e) := by
    induction is generalizing e with
    | nil => exact hR.refl e
    | cons i is ih => exact hR.trans (hR.free hbury i e) (ih _)
  have hhalted {e : Engine} : R e (e.record .halted) := hR.record e rfl
  exact hR.trans (hR.trans (hfree e.forest.roots e) hhalted) (hR.beside rfl rfl rfl)

end

end Tolerant

end Engine

end InstrumentFlow
