import InstrumentFlow.Proofs.Engine.Pace
import InstrumentFlow.Proofs.Slicing.Shift

/-!
# Turns and the moment

A component that neither waits for a moment nor for somebody outside does the same at every moment
and after every past. So does a whole turn, and so does the end of a run.

* `Kind.isTimeless` -- the kinds of components that do not wait;
* `carries_execute` -- the step of such a component from a shifted state;
* `runTask_shift`, `shutdown_shift` -- turns and the end of a run.
-/

namespace InstrumentFlow

/-- Whether components of the kind wait neither for a moment nor for somebody outside. -/
def Kind.isTimeless : Kind → Bool
  | delay | scpi | host _ => false
  | _ => true

/-- Without components that wait for others there are none of the host. -/
theorem Definition.Only.hostless {d : Definition} (h : d.Only Kind.isTimeless) : d.Hostless := by
  intro f hf c hc
  have htimeless := h f hf c hc
  cases hk : c.kind with
  | host code =>
    rw [hk] at htimeless
    cases htimeless
  | _ => rfl

namespace Engine

variable {past : List Event} {now : Nat} {e : Engine}

/-! ## 1. Calls and their ends -/

theorem carries_call (i : InstanceId) (component flow : Nat) :
    Carries (shift past now) (call i component flow) (call i component flow) e := by
  unfold call
  refine carries_bind (carries_create _ _ _) fun child e => ?_
  refine carries_modify_bind (startAsync_shift _ _ _) (carries_get ?_)
  rw [isCollectible_shift]
  split
  · refine carries_modify_bind (free_shift _) (carries_modify_bind rfl ?_)
    exact carries_bind (carries_pulse _ _) fun _ _ => carries_pure _
  · exact carries_pure _

theorem carries_stepFinish (i : InstanceId) :
    Carries (shift past now) (stepFinish i) (stepFinish i) e := by
  unfold stepFinish
  refine carries_get ?_
  rw [instance?_shift]
  split
  · exact carries_throw _
  split
  · refine carries_modify_bind rfl (carries_bind (carries_pulse _ _) fun _ _ => ?_)
    exact carries_modify_bind (endAsync_shift _ _ _) (carries_pure _)
  · exact carries_modify_bind rfl (carries_pure _)

theorem carries_stepOutput (i : InstanceId) (index : Nat) (c : Component) :
    Carries (shift past now) (stepOutput i index c) (stepOutput i index c) e := by
  unfold stepOutput
  refine carries_get ?_
  rw [instance?_shift]
  dsimp only
  split
  · exact carries_throw _
  · exact carries_throw _
  · exact carries_throw _
  · exact carries_bind (carries_propagate _ _ _ _) fun _ _ => carries_pure _

theorem carries_stepCall (i : InstanceId) (index : Nat) (c : Component) :
    Carries (shift past now) (stepCall i index c) (stepCall i index c) e := by
  unfold stepCall
  split
  · exact carries_throw _
  · exact carries_bind (carries_call _ _ _) fun _ _ => carries_pure _

/-! ## 2. Expressions -/

theorem carries_stepPass (i : InstanceId) (index : Nat) :
    Carries (shift past now) (stepPass i index) (stepPass i index) e :=
  carries_bind (carries_pulse i index) fun _ _ => carries_pure _

theorem carries_stepEvaluate (i : InstanceId) (index : Nat) :
    Carries (shift past now) (stepEvaluate i index) (stepEvaluate i index) e := by
  unfold stepEvaluate
  refine carries_bind (carries_evaluateProperty _ _ _ _ _) fun v _ => ?_
  exact carries_bind (carries_propagate _ _ _ _) fun _ _ => carries_stepPass i index

theorem carries_assignPairs (i : InstanceId) (index : Nat) (pairs : List Nat) :
    Carries (shift past now) (assignPairs i index pairs) (assignPairs i index pairs) e := by
  induction pairs generalizing e with
  | nil => exact carries_pure _
  | cons pair pairs ih =>
    refine carries_bind ?_ fun _ _ => ih
    refine carries_bind (carries_evaluateProperty _ _ _ _ _) fun destination _ => ?_
    exact carries_bind (carries_evaluateProperty _ _ _ _ _) fun v _ => carries_assign _ _ _ _

theorem carries_stepSetVariable (i : InstanceId) (index : Nat) (c : Component) :
    Carries (shift past now) (stepSetVariable i index c) (stepSetVariable i index c) e :=
  carries_bind (carries_assignPairs i index _) fun _ _ => carries_stepPass i index

theorem carries_stepIsTrue (i : InstanceId) (index : Nat) :
    Carries (shift past now) (stepIsTrue i index) (stepIsTrue i index) e := by
  unfold stepIsTrue
  refine carries_bind (carries_evaluateProperty _ _ _ _ _) fun v _ => carries_get ?_
  exact carries_bind (carries_propagate _ _ _ _) fun _ _ => carries_pure _

theorem carries_stepLog (i : InstanceId) (index : Nat) :
    Carries (shift past now) (stepLog i index) (stepLog i index) e := by
  unfold stepLog
  refine carries_bind (carries_evaluateProperty _ _ _ _ _) fun v _ => ?_
  refine carries_bind (carries_textOf v) fun text _ => ?_
  exact carries_modify_bind rfl (carries_stepPass i index)

theorem carries_stepError (i : InstanceId) (index : Nat) :
    Carries (shift past now) (stepError i index) (stepError i index) e := by
  unfold stepError
  refine carries_bind (carries_evaluateProperty _ _ _ _ _) fun v _ => ?_
  exact carries_bind (carries_textOf v) fun _ _ => carries_throw _

/-! ## 3. Components with progress -/

theorem carries_checkOut (i : InstanceId) (index : Nat) :
    Carries (shift past now) (checkOut i index) (checkOut i index) e :=
  carries_get (carries_set_bind rfl (carries_pure _))

theorem carries_checkIn (i : InstanceId) (index : Nat) (hadProgress : Bool)
    (p : Option Progress) : Carries (shift past now) (checkIn i index hadProgress p)
      (checkIn i index hadProgress p) e :=
  carries_modify (settleProgress_shift _ _ _ _)

theorem carries_stepCatch (i : InstanceId) (index : Nat) :
    Carries (shift past now) (stepCatch i index) (stepCatch i index) e := by
  unfold stepCatch
  refine carries_bind (carries_checkOut i index) fun p _ => ?_
  split
  · refine carries_bind (carries_checkIn _ _ _ _) fun _ _ => ?_
    exact carries_bind (carries_propagate _ _ _ _) fun _ _ => carries_stepPass i index
  · exact carries_pure _

theorem carries_beginLoop (i : InstanceId) (index : Nat) :
    Carries (shift past now) (beginLoop i index) (beginLoop i index) e := by
  unfold beginLoop
  refine carries_bind (carries_evaluateProperty _ _ _ _ _) fun destination _ => ?_
  refine carries_bind (carries_evaluateProperty _ _ _ _ _) fun first _ => ?_
  refine carries_bind (carries_evaluateProperty _ _ _ _ _) fun limit _ => ?_
  refine carries_bind (carries_evaluateProperty _ _ _ _ _) fun step _ => ?_
  refine carries_bind (carries_assign _ _ _ _) fun _ _ => ?_
  exact carries_bind (carries_checkIn _ _ _ _) fun _ _ => carries_stepPass i index

theorem carries_advanceLoop (i : InstanceId) (index : Nat) (l : LoopProgress) :
    Carries (shift past now) (advanceLoop i index l) (advanceLoop i index l) e := by
  unfold advanceLoop
  refine carries_bind (carries_resolved _ _) fun current _ => ?_
  split
  · exact carries_throw _
  split
  · refine carries_bind (carries_checkIn _ _ _ _) fun _ _ => ?_
    exact carries_bind (carries_propagate _ _ _ _) fun _ _ => carries_pure _
  · refine carries_bind (carries_assign _ _ _ _) fun _ _ => ?_
    exact carries_bind (carries_checkIn _ _ _ _) fun _ _ => carries_stepPass i index

theorem carries_stepLoop (i : InstanceId) (index : Nat) :
    Carries (shift past now) (stepLoop i index) (stepLoop i index) e := by
  unfold stepLoop
  refine carries_bind (carries_checkOut i index) fun p _ => ?_
  split
  · exact carries_advanceLoop i index _
  · exact carries_beginLoop i index

/-- **The step of a component that does not wait** is the same after any past, at any moment. -/
theorem carries_execute (handler : Handler) (i : InstanceId) (index : Nat) {c : Component}
    (hc : c.kind.isTimeless = true) :
    Carries (shift past now) (execute handler i index c) (execute handler i index c) e := by
  unfold execute
  split
  · exact carries_stepPass i index
  · exact carries_stepPass i index
  · exact carries_stepFinish i
  · exact carries_stepOutput i index c
  · exact carries_stepCall i index c
  · exact carries_stepEvaluate i index
  · exact carries_stepEvaluate i index
  · exact carries_stepSetVariable i index c
  · exact carries_stepIsTrue i index
  · exact carries_stepLog i index
  · exact carries_stepError i index
  · exact carries_stepCatch i index
  · next hk => rw [hk] at hc; cases hc
  · exact carries_stepLoop i index
  · next hk => rw [hk] at hc; cases hc
  · next hk => rw [hk] at hc; cases hc

/-! ## 4. Turns -/

theorem tidy_shift (i : InstanceId) (component : Nat) :
    (e.shift past now).tidy i component = (e.tidy i component).shift past now := by
  unfold tidy
  rw [resetSequenceInputs_shift, record_shift, collect_shift]

theorem continueLater_shift (i : InstanceId) (component : Nat) :
    (e.shift past now).continueLater i component
      = (e.continueLater i component).shift past now := by
  unfold continueLater
  rw [enqueue_shift]
  rcases e.enqueue ⟨i, component, true⟩ with ⟨_ | _, e'⟩
  · dsimp only
    rw [releaseProgress_shift, failFatally_shift]
  · rfl

theorem endStep_shift (i : InstanceId) (component : Nat) (midway : Bool) :
    (e.shift past now).endStep i component midway
      = (e.endStep i component midway).shift past now := rfl

theorem settleOutcome_shift (i : InstanceId) (component : Nat)
    (outcome : EStateM.Result FlowError Engine Step) :
    settleOutcome i component (mapState (shift past now) outcome)
      = (settleOutcome i component outcome).shift past now := by
  match outcome with
  | .ok .completed _ => rfl
  | .ok .suspended e =>
    show ((e.shift past now).endStep i component true).continueLater i component = _
    rw [endStep_shift, continueLater_shift]
    rfl
  | .error err e =>
    show (((e.shift past now).endStep i component false).releaseProgress i component).raiseError i
      component err.message = _
    rw [endStep_shift, releaseProgress_shift, raiseError_shift]
    rfl

theorem runStep_shift (handler : Handler) (t : Task) {c : Component}
    (hc : c.kind.isTimeless = true) :
    (e.shift past now).runStep handler t c = (e.runStep handler t c).shift past now := by
  have hstep : Carries (shift past now) (execute handler t.instanceId t.component c) _
      (e.beginStep t) := carries_execute handler t.instanceId t.component hc
  unfold runStep
  rw [← settleOutcome_shift, ← hstep]
  rfl

/-- **A task** of flows whose components do not wait does the same after any past, at any moment. -/
theorem runTask_shift (hd : e.definition.Only Kind.isTimeless) (handler : Handler) (t : Task) :
    (e.shift past now).runTask handler t = (e.runTask handler t).shift past now := by
  unfold runTask
  rw [instance?_shift]
  split
  · rfl
  next s hs =>
  rw [componentRecord_shift]
  split
  · rfl
  next c hc =>
  have hcomponent : e.componentOf? t.instanceId t.component = some c := by
    rw [componentOf?_of_live hs, hc]
    rfl
  rw [releaseProgress_shift, runStep_shift handler t (only_componentOf? hd hcomponent), tidy_shift,
    tidy_shift]
  split <;> rfl

/-! ## 5. The end of a run -/

theorem shutdown_shift : (e.shift past now).shutdown = e.shutdown.shift past now := by
  unfold shutdown
  dsimp only
  rw [forest_shift, foldl_shift fun _ _ => free_shift _]
  rfl

end Engine

end InstrumentFlow
