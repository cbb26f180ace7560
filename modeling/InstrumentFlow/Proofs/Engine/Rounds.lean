import InstrumentFlow.Proofs.Engine.Run
import InstrumentFlow.Proofs.Engine.Tolerance

/-!
# Errors, orders and ticks that keep a relation

A relation that small changes keep is kept by most orders of the host. If every single task and the
end of a single instance keep it too, ticks do.

* `Tolerant.raiseError` -- errors on their way keep every tolerant relation;
* `Command.isModest`, `Tolerant.perform` -- orders that keep every tolerant relation;
* `Tolerant.runTasks`, `Tolerant.tick`, `Tolerant.runUntilIdle` -- ticks that keep one, from what
  tasks and ends of instances do.
-/

namespace InstrumentFlow

/-- Whether a command begins and ends no instance and no wait, runs no task, raises no error, and
    leaves requests and progress alone. -/
def Command.isModest : Command → Bool
  | startFlow _ | shutdown | tick | runUntilIdle _ | setHostState _ _ _ | call _ _ _
  | raiseError _ _ _ | startAsync _ _ | endAsync _ _ | respond _ _ | dropRequest _
  | leaveDesk => false
  | _ => true

namespace Engine

/-- Where a request is taken nothing but the desk changes. -/
theorem takeRequest_snd (e : Engine) :
    e.takeRequest.2 = { e with dispatcher := e.takeRequest.2.dispatcher } := by
  unfold takeRequest
  split <;> rfl

namespace Tolerant

variable {own : InstanceId → Nat → Bool} {R : Engine → Engine → Prop} (hR : Tolerant own R)
include hR

/-! ## 1. Errors on their way -/

/-- **An error on its way**, where every catch component may get progress. -/
theorem raiseError (e : Engine)
    (hown : ∀ catcher k, e.kindOf? catcher k = some .catchError → own catcher k = true)
    (i : InstanceId) (component : Nat) (message : String) :
    R e (e.raiseError i component message) := by
  have hroute {catcher : InstanceId} {k : Nat} (ho : own catcher k = true) :
      R e (e.routeError i component catcher k message) := by
    have hmarked : R e _ := hR.markFailed catcher e.chainBound i e
    unfold routeError
    generalize Engine.markFailed catcher e.chainBound i e = e₁ at hmarked ⊢
    have hrouted : R e₁ (e₁.record (.routed i component catcher k message)) := hR.record e₁ rfl
    have hqueued := hR.trans (hR.trans (hR.trans hmarked hrouted)
      (hR.allocateProgress _ ho (.catchError message))) (hR.enqueue _ ⟨catcher, k, false⟩)
    dsimp only
    split
    · next he =>
      rw [he] at hqueued
      exact hqueued
    · next he =>
      rw [he] at hqueued
      exact hR.trans hqueued (hR.failFatally _ i component _)
  unfold Engine.raiseError
  split
  · exact hR.refl e
  split
  · exact hR.failFatally e i component message
  split
  · exact hR.sendError e i component _ message
  dsimp only
  split
  · exact hR.failFatally e i component message
  · next hfind =>
    obtain ⟨_, _, hfind⟩ := Option.bind_eq_some_iff.mp hfind
    exact hroute (hown _ _ (findCatcher_spec hfind))

/-! ## 2. Orders -/

/-- **Most commands** keep every tolerant relation. -/
theorem perform (handler : Handler) {command : Command} (hc : command.isModest = true)
    (e : Engine) : R e (perform handler command e).2 := by
  have hreply {α : Type} {a : Act α} (ha : Maintains R a) (reply : α → Engine → Reply) :
      R e (replyOf reply a e).2 := upholds_replyOf (ha e)
  have hread {command : Command} (hc : command.isReading = true) :
      R e (Engine.perform handler command e).2 := by
    rw [perform_reading handler hc]
    exact hR.refl e
  cases command with
  | stop | attach | detach | pause | resume | singleStep => exact hR.beside rfl rfl rfl
  | evaluate i component property iterators =>
    exact hreply (hR.maintains_evaluateProperty i component property iterators false) _
  | evaluateTarget i component property iterators =>
    exact hreply (hR.maintains_evaluateProperty i component property iterators true) _
  | assignProperty i component property iterators value =>
    refine hreply (hR.maintains_withGiven value fun v => ?_) _
    exact hR.bind (hR.maintains_evaluateProperty i component property iterators true) fun d =>
      hR.maintains_assign i component d v
  | assign i component destination value =>
    exact hreply (hR.maintains_withGiven destination fun d => hR.maintains_withGiven value fun v =>
      hR.maintains_assign i component d v) _
  | readThrough value =>
    exact hreply (hR.maintains_withGiven value fun v => hR.maintains_resolved _ v) _
  | readInput _ _ | readLocal _ _ | readGlobal _ | readHostState _ _ | readProgress _ _ | isAlive _
  | snapshot => exact hread rfl
  | setInput i slot value =>
    exact hreply (hR.maintains_withGiven value fun v => hR.maintains_setInput i slot v) _
  | clearInput i slot => exact hR.clearInput e i slot
  | setGlobal index value =>
    exact hreply (hR.maintains_withGiven value fun v => hR.maintains_setGlobal index v) _
  | propagate i component output value =>
    have hsend (v : Value) := hR.maintains_propagate i component output v
    exact hreply (hR.maintains_withGiven value hsend) _
  | pulse i component => exact hreply (hR.maintains_pulse i component) _
  | log i component message => exact hR.log e i component _
  | setRunning _ | setNative _ _ => exact hR.beside rfl rfl rfl
  | takeRequest =>
    rw [perform_takeRequest, takeRequest_snd]
    exact hR.beside rfl rfl rfl
  | evaluateCode i code iterators stackCapacity target =>
    exact hR.evaluateCode e i code iterators stackCapacity target
  | _ => cases hc

/-! ## 3. Ticks -/

section

variable {S : Engine → Prop} (hi : ∀ {e}, S e → Inv False e)
  (hS : ∀ {e e'}, S e → Leaps False False False e e' → S e')
  {handler : Handler} (hh : HandlerLeaps False handler)
  (hturn : ∀ {e}, S e → ∀ t, R e (e.runTask handler t))
include hi hS hh hturn

/-- **Tasks in order.** -/
theorem runTasks (count : Nat) {e : Engine} (hs : S e) (allowance : Option Nat)
    (report : TickReport) : R e (runTasks handler count allowance report e).2 := by
  induction count generalizing allowance report e with
  | zero => exact hR.refl e
  | succ count ih =>
    cases headway handler count allowance report e with
    | rest _ _ _ hr =>
      rw [hr]
      exact hR.refl e
    | @drop t ts hq hn hr =>
      have hdrop : R e ((e.takeTask t).record (.discarded t)) :=
        hR.trans (hR.takeTask e t) (hR.record _ rfl)
      have hleap : Leap False False False e ((e.takeTask t).record (.discarded t)) :=
        .discard hq hn
      rw [hr]
      exact hR.trans hdrop (ih (hS hs (.single hleap)) _ _)
    | hold t hr =>
      rw [hr]
      exact hR.debuggerBlocks e t
    | @run t ts hp hq _ hr =>
      have hblock : Leaps False False False e (e.debuggerBlocks t).2 :=
        leaps_debuggerBlocks (hi hs) .refl t
      have hp' := (stopRequested_debuggerBlocks e t).trans hp
      have hq' := (tasks_debuggerBlocks e t).trans hq
      have htaken : Leaps False False False e ((e.debuggerBlocks t).2.takeTask t) :=
        hblock.tail (.take id hq')
      have hrun := hR.trans (hR.trans (hR.debuggerBlocks e t) (hR.takeTask _ t))
        (hturn (hS hs htaken) t)
      have hleaps : Leaps False False False e
          (((e.debuggerBlocks t).2.takeTask t).runTask handler t) :=
        leaps_turn hh (hi hs) False.elim id hblock hp' hq'
      rcases hr with ⟨_, hr⟩ | hr
      · rw [hr]
        exact hR.trans hrun (hR.beside rfl rfl rfl)
      · rw [hr]
        exact hR.trans hrun (ih (hS hs hleaps) _ _)

variable (hbury : ∀ i e, R e (bury i e).2)
include hbury

/-- **One tick.** -/
theorem tick {e : Engine} (hs : S e) (allowance : Option Nat) :
    R e (e.tick handler allowance).2 := by
  have hend (e : Engine) (report : TickReport) : R e (endTick report e).2 := by
    unfold endTick
    dsimp only
    split
    · exact hR.trans (hR.shutdown hbury e) (hR.record _ rfl)
    · exact hR.record e rfl
  unfold Engine.tick
  split
  · exact hR.trans (hR.runTasks hi hS hh hturn _ hs _ _) (hend _ _)
  · exact hend e _

theorem runUntilIdle (allowance : Option Nat) (maxTicks : Nat) {e : Engine} (hs : S e) :
    R e (runUntilIdle handler allowance maxTicks e).2 := by
  induction maxTicks generalizing e with
  | zero => exact hR.refl e
  | succ maxTicks ih =>
    unfold Engine.runUntilIdle
    split
    · exact hR.refl e
    · have hleaps : Leaps False False False e (e.tick handler allowance).2 :=
        leaps_tick hh (hi hs) False.elim id .refl allowance
      exact hR.trans (hR.tick hi hS hh hturn hbury hs allowance) (ih (hS hs hleaps))

end

end Tolerant

end Engine

end InstrumentFlow
