import InstrumentFlow.Proofs.Clearance.Spared
import InstrumentFlow.Proofs.Waiting
import InstrumentFlow.Proofs.Wiring

/-!
# Nothing that has finished is left over

The instance of a called flow goes with the last that can still run in it: in every state between
calls and between the steps of a tick something can run in each that is live.

* `clears_call`, `clears_stepFinish`, `clears_execute` -- within a step only its own instance is
  spared;
* `cleared_runTask` -- after its task not even that one;
* `Swept`, `Swept.runTask`, `Swept.runTasks`, `Swept.tick` -- between steps nobody is left over;
* `Command.IsOutward`, `Swept.move` -- nor after what the host asks for between ticks;
* `nothing_left_over` -- nor in every run.
-/

namespace InstrumentFlow

/-- What an application asks for that drives a program: it starts, stops and runs flows, debugs them
    and feeds them with values. -/
def Command.isOutward : Command → Bool
  | startFlow _ | stop | shutdown | tick | runUntilIdle _ | attach | detach | pause | resume
  | singleStep | setInput _ _ _ | setGlobal _ _ => true
  | _ => false

/-- The host only drives the program by this move, or time passes, or what is around the program
    changes. -/
def Move.isOutward : Move → Bool
  | order o => o.command.isOutward
  | _ => true

namespace Engine

section

variable {closed : Prop} {e : Engine} {i : InstanceId}

/-! ## 1. Steps -/

/-- **A call leaves nobody behind** but the caller, whose step is running: a called flow in which
    nothing can run goes at once. -/
theorem clears_call (hi : Inv closed e) (hx : ∀ j, e.isExecuting j = true → j = i)
    (hl : e.Cleared (· = i)) (component flow : Nat) :
    Upholds (Cleared (· = i)) (fun _ _ => True) (call i component flow) e := by
  unfold call
  have hcreate := create_cases e flow (some (i, component)) true
  refine upholds_bind_within (R := fun child e' =>
    Paces closed untouched e (e'.startAsync (some child) i component)
      ∧ (e'.startAsync (some child) i component).Cleared fun j => j = i ∨ j = child)
    (fun child e' hok => ?_) (fun err e' herror => ?_) fun child e' ⟨hpaces, hcall⟩ => ?_
  · rcases hcreate with ⟨err, he⟩ | ⟨f, hf, hp, he⟩
    · rw [he] at hok
      cases hok
    · rw [he] at hok
      obtain ⟨rfl, rfl⟩ := EStateM.Result.ok.inj hok
      refine ⟨.single (.call hf (hp _ rfl)), ?_⟩
      refine ((hl.arisen hi flow f hp rfl).but fun j hj => keeps_startAsync _ _ component hj).mono ?_
      rintro j (hj | rfl)
      · exact hj
      · exact Or.inl rfl
  · rcases hcreate with ⟨err, he⟩ | ⟨f, hf, hp, he⟩
    · rw [he] at herror
      obtain ⟨_, rfl⟩ := EStateM.Result.error.inj herror
      exact hl
    · rw [he] at herror
      cases herror
  refine upholds_modify_bind (upholds_get ?_)
  have hic := hpaces.inv hi
  have hxc (j : InstanceId) (hj : (e'.startAsync (some child) i component).isExecuting j = true) :
      j = i := by
    refine hx j ?_
    unfold isExecuting at hj ⊢
    rwa [hpaces.frame.executing] at hj
  split
  · refine upholds_modify_bind (upholds_modify_bind ?_)
    have hfreed := cleared_freed hic child hxc hcall
    have hfree : Paces closed untouched (e'.startAsync (some child) i component)
        ((e'.startAsync (some child) i component).free child) := paces_freed hic .refl child
    have hif := hfree.inv hic
    have hreturn : Strokes closed untouched ((e'.startAsync (some child) i component).free child)
        (((e'.startAsync (some child) i component).free child).record
          (.returned child i component)) := .single (.note rfl rfl rfl)
    have hpulse := upholds_pulse hif hreturn i component
    refine upholds_bind (hpulse.mono (fun _ hs => hs.cleared (spares_untouched _) hfreed)
      fun _ _ _ _ => trivial) fun _ _ hl _ => upholds_pure hl trivial
  · next hc =>
    exact upholds_pure (hcall.checked fun h => absurd h hc) trivial

/-- **The end of a called flow leaves nobody behind** but itself, whose step is running. -/
theorem clears_stepFinish (hi : Inv closed e) (hx : ∀ j, e.isExecuting j = true → j = i)
    (hl : e.Cleared (· = i)) :
    Upholds (Cleared (· = i)) (fun _ _ => True) (stepFinish i) e := by
  unfold stepFinish
  refine upholds_get ?_
  split
  · exact upholds_throw hl
  split
  · next parent component _ _ =>
    refine upholds_modify_bind ?_
    have hreturn : Strokes closed untouched e (e.record (.returned i parent component)) :=
      .single (.note rfl rfl rfl)
    refine upholds_bind (R := fun _ e' => Strokes closed untouched e e')
      ((upholds_pulse hi hreturn parent component).mono
        (fun _ hs => hs.cleared (spares_untouched _) hl) fun _ _ hs _ => hs)
      fun _ e' hl' hs => upholds_modify_bind ?_
    refine upholds_pure (cleared_endAsync (hs.inv hi) _ _ _ (fun j hj => hx j ?_) hl') trivial
    unfold isExecuting at hj ⊢
    rwa [hs.frame.executing] at hj
  · exact upholds_modify_bind (upholds_pure (hl.of_eq rfl rfl) trivial)

/-- **The step of a component leaves nobody behind** but its own instance. -/
theorem clears_execute (handler : Handler) {index : Nat} {c : Component} (hi : Inv closed e)
    (hk : e.componentOf? i index = some c) (hx : e.executing = some (i, index))
    (hh : c.kind.isBuiltIn = true) (hl : e.Cleared (· = i)) :
    Upholds (Cleared (· = i)) (fun _ _ => True) (execute handler i index c) e := by
  have hrunning (j : InstanceId) (hj : e.isExecuting j = true) : j = i := by
    unfold isExecuting at hj
    rw [hx] at hj
    exact (by simpa using hj : i = j).symm
  have hidle {Q : Step → Engine → Prop} {a : Act Step}
      (ha : Upholds (Strokes closed untouched e) Q a e) :
      Upholds (Cleared (· = i)) (fun _ _ => True) a e :=
    upholds_cleared ha (spares_untouched _) hl
  cases hp : c.kind.keepsProgress with
  | true =>
    exact upholds_cleared (upholds_executeKeeping handler hi hh hk hx hp) (spares_alone i index) hl
  | false =>
    unfold execute
    cases hc : c.kind with
    | start | noop => exact hidle (upholds_stepPass hi .refl i index)
    | finish => exact clears_stepFinish hi hrunning hl
    | output => exact hidle (upholds_stepOutput hi .refl i index c)
    | callAction =>
      unfold stepCall
      dsimp only
      split
      · exact upholds_throw hl
      · exact upholds_bind (clears_call hi hrunning hl index _) fun _ _ hl _ =>
          upholds_pure hl trivial
    | evalExpr | constant => exact hidle (upholds_stepEvaluate hi .refl i index)
    | setVariable => exact hidle (upholds_stepSetVariable hi .refl i index c)
    | isTrue => exact hidle (upholds_stepIsTrue hi .refl i index)
    | log => exact hidle (upholds_stepLog hi .refl i index)
    | error => exact hidle (upholds_stepError hi .refl i index)
    | host _ =>
      rw [hc] at hh
      cases hh
    | _ =>
      rw [hc] at hp
      cases hp

/-! ## 2. Tasks -/

/-- A task that goes on later takes nothing away, and where it finds no room its component only loses
    its own progress. -/
theorem cleared_continueLater (hl : e.Cleared (· = i)) (component : Nat) :
    (e.continueLater i component).Cleared (· = i) := by
  rcases continueLater_cases e i component with ⟨queue, hq, he⟩ | ⟨hq, _⟩
  · rw [he]
    intro j hj
    refine hl j ?_
    change ({ e with queue } : Engine).isCollectible j = true at hj
    obtain ⟨s, hs, haction, hcount, htasks, hprogress⟩ := isCollectible_iff_progress?.mp hj
    refine isCollectible_iff_progress?.mpr ⟨s, hs, haction, hcount, ?_, hprogress⟩
    unfold TaskQueue.hasTasksOf at htasks ⊢
    rw [tasks_of_push hq, List.any_append, Bool.or_eq_false_iff] at htasks
    exact htasks.1
  · have hrefused : (e.record (.refused ⟨i, component, true⟩)).Cleared (· = i) := hl.of_eq rfl rfl
    have hrest : Strokes False (alone i component) _ (e.continueLater i component) :=
      strokes_continueLater hq ⟨rfl, rfl⟩
    exact hrest.cleared (spares_alone i component) hrefused

/-- After a step none is running. -/
theorem executing_afterStep (i : InstanceId) (component : Nat)
    (outcome : EStateM.Result FlowError Engine Step) :
    (afterStep i component outcome).executing = none :=
  (SameFrame.afterStep i component outcome).executing

/-- **What follows from the outcome of a step** leaves nobody behind but its own instance. -/
theorem cleared_settleOutcome {component : Nat} {outcome : EStateM.Result FlowError Engine Step}
    (hi : Inv closed (stateAfter outcome)) (hl : (stateAfter outcome).Cleared (· = i)) :
    (settleOutcome i component outcome).Cleared (· = i) := by
  have hend (midway : Bool) : ((stateAfter outcome).endStep i component midway).Cleared (· = i) :=
    hl.of_eq rfl rfl
  match outcome with
  | .ok .completed _ => exact hend false
  | .ok .suspended _ => exact cleared_continueLater (hend true) component
  | .error err e =>
    have hie := (touches_endStep hi i component false).inv hi
    have hrelease : Strokes closed (alone i component) (e.endStep i component false)
        ((e.endStep i component false).releaseProgress i component) :=
      strokes_releaseProgress .refl ⟨rfl, rfl⟩
    -- the error may come to a catch component of any instance, whose progress then keeps it alive
    have hraise : Strokes closed (fun _ _ p => p.any Progress.keepsAlive = true)
        ((e.endStep i component false).releaseProgress i component)
        (((e.endStep i component false).releaseProgress i component).raiseError i component
          err.message) := by
      refine strokes_raiseError (hrelease.inv hie) .refl (fun _ _ _ => ?_) i component
      rfl
    exact hraise.cleared (fun _ _ _ => Or.inr)
      (hrelease.cleared (spares_alone i component) (hend false))

/-- **Once a component is tidied** nobody is left behind. -/
theorem cleared_tidy (hi : Inv closed e) (hx : e.executing = none) (hl : e.Cleared (· = i))
    (component : Nat) : (e.tidy i component).Cleared unspared := by
  have hreset : Strokes closed untouched e (e.resetSequenceInputs i component) :=
    strokes_resetSequenceInputs .refl i component
  have hsettle : Pace closed untouched (e.resetSequenceInputs i component)
      ((e.resetSequenceInputs i component).record (.settled i component)) :=
    .settle (pulsesGone_resetSequenceInputs e i component)
  have hpaces : Paces closed untouched e
      ((e.resetSequenceInputs i component).record (.settled i component)) :=
    hreset.paces.tail hsettle
  have hcleared := hreset.cleared (spares_untouched _) hl
  refine cleared_collect (hpaces.inv hi) i (fun j hj => ?_)
    ((hcleared.of_eq rfl rfl).mono fun _ => Or.inr)
  unfold isExecuting at hj
  rw [hpaces.frame.executing, hx] at hj
  cases hj

/-- The turn of a task takes away what it was queued for. -/
theorem Cleared.takeTask (hl : e.Cleared unspared) {t : Task} {ts : List Task}
    (hq : e.queue.tasks = t :: ts) : (e.takeTask t).Cleared (· = t.instanceId) := by
  intro j hj
  refine Classical.byContradiction fun hne => hl j ?_
  obtain ⟨s, hs, haction, hcount, htasks, hprogress⟩ := isCollectible_iff_progress?.mp hj
  refine isCollectible_iff_progress?.mpr ⟨s, hs, haction, hcount, ?_, hprogress⟩
  change (e.queue.tasks.tail.any fun t => t.instanceId == j) = false at htasks
  unfold TaskQueue.hasTasksOf
  rw [hq] at htasks ⊢
  rw [List.any_cons, beq_false_of_ne (Ne.symm hne), Bool.false_or]
  exact htasks

/-- **A task leaves nobody behind**, whatever becomes of it, where its component is there. -/
theorem cleared_runTask (handler : Handler) {t : Task} {ts : List Task} (hi : Inv closed e)
    (hh : e.definition.Hostless) (ha : e.AllFound) (hx : e.executing = none)
    (hl : e.Cleared unspared) (hq : e.queue.tasks = t :: ts) :
    ((e.takeTask t).runTask handler t).Cleared unspared
      ∧ ((e.takeTask t).runTask handler t).executing = none := by
  have htake : Touches closed e (e.takeTask t) := touches_takeTask t
  have hit := htake.inv hi
  have hlt := hl.takeTask hq
  have hmem : t ∈ e.queue.tasks := hq ▸ List.mem_cons_self
  obtain ⟨c, hc⟩ := Option.ne_none_iff_exists'.mp (ha t hmem)
  obtain ⟨s, hs⟩ := Option.ne_none_iff_exists'.mp (ha.allLive t hmem)
  have hrecord : e.componentRecord s.flow t.component = .ok c := by
    unfold componentOf? at hc
    rw [hs, Option.bind_some] at hc
    exact componentRecord_eq_ok_iff.mpr hc
  rw [runTask_of_component handler hs hrecord]
  have htidy {e' : Engine} (hi' : Inv closed e') (hx' : e'.executing = none)
      (hl' : e'.Cleared (· = t.instanceId)) :
      (e'.tidy t.instanceId t.component).Cleared unspared
        ∧ (e'.tidy t.instanceId t.component).executing = none := by
    have hpaces : Paces closed untouched e' (e'.tidy t.instanceId t.component) :=
      paces_tidy hi' .refl _ _
    exact ⟨cleared_tidy hi' hx' hl' t.component, hpaces.frame.executing.trans hx'⟩
  split
  · have hrelease : Strokes closed (alone t.instanceId t.component) (e.takeTask t)
        ((e.takeTask t).releaseProgress t.instanceId t.component) :=
      strokes_releaseProgress .refl ⟨rfl, rfl⟩
    exact htidy (hrelease.inv hit) (hrelease.frame.executing.trans hx)
      (hrelease.cleared (spares_alone _ _) hlt)
  · have hk : (e.takeTask t).componentOf? t.instanceId t.component = some c := hc
    have hbuiltIn := only_componentOf? (e := e.takeTask t) hh hk
    have hib := (touches_beginStep hit t).inv hit
    have hlb : ((e.takeTask t).beginStep t).Cleared (· = t.instanceId) := hlt.of_eq rfl rfl
    have his := ((upholds_execute handler hib hk rfl hbuiltIn).after).inv hib
    have hls := (clears_execute handler hib hk rfl hbuiltIn hlb).after
    have hia := (touches_afterStep t.instanceId t.component his).inv his
    have hsettle := strokes_settleOutcome t.instanceId t.component hia
    refine htidy (hsettle.inv hia) ?_ (cleared_settleOutcome his hls)
    rw [runStep, hsettle.frame.executing]
    exact executing_afterStep _ _ _

end

/-! ## 3. Ticks -/

/-- **Between steps nobody is left over**, in flows without components of the host. -/
structure Swept (e : Engine) : Prop where
  inv : Inv False e
  hostless : e.definition.Hostless
  found : e.AllFound
  idle : e.executing = none
  cleared : e.Cleared unspared

namespace Swept

variable {e e' : Engine} (h : e.Swept)
include h

theorem leaps (hl : Leaps False True False e e') (hx : e'.executing = none)
    (hc : e'.Cleared unspared) : e'.Swept where
  inv := hl.inv h.inv
  hostless := hl.definition h.inv ▸ h.hostless
  found := hl.preserves (fun _ _ hi hl ha => hl.allFound hi ha) h.inv h.found
  idle := hx
  cleared := hc

theorem paces (hp : Paces False untouched e e') (hc : e'.Cleared unspared) : e'.Swept :=
  h.leaps (leaps_paces .refl hp) (hp.frame.executing.trans h.idle) hc

theorem strokes (hs : Strokes False untouched e e') : e'.Swept :=
  h.paces hs.paces (hs.cleared (spares_untouched _) h.cleared)

/-- A change of the clock, of the debugger or of what the host answers. -/
theorem setting (he : e' = { e with
    debugger := e'.debugger, skipBreakpoint := e'.skipBreakpoint, clock := e'.clock
    host := e'.host }) : e'.Swept := by
  refine h.leaps (.single (.setting he False.elim)) ?_ (h.cleared.of_eq ?_ ?_)
  · rw [he]
    exact h.idle
  · rw [he]
  · rw [he]

/-- The end of a run leaves nobody at all. -/
theorem shutdown : e.shutdown.Swept := by
  have hfree : Paces False untouched e (e.forest.roots.foldl (fun e root => e.free root) e) :=
    paces_freeAll h.inv .refl e.forest.roots
  refine h.leaps (leaps_shutdown h.inv .refl) (hfree.frame.executing.trans h.idle) fun i hi => ?_
  exact live_of_isCollectible hi (instance?_freeAll h.inv i)

theorem runTask {t : Task} {ts : List Task} (hs : e.stopRequested = false)
    (hq : e.queue.tasks = t :: ts) : ((e.takeTask t).runTask handler t).Swept := by
  obtain ⟨hcleared, hidle⟩ :=
    cleared_runTask handler h.inv h.hostless h.found h.idle h.cleared hq
  exact h.leaps (.single (.task h.hostless hs hq)) hidle hcleared

theorem runTasks (count : Nat) (allowance : Option Nat) (report : TickReport) :
    (Engine.runTasks handler count allowance report e).2.Swept := by
  induction count generalizing allowance report e with
  | zero => exact h
  | succ count ih =>
    have hblock (t : Task) : (e.debuggerBlocks t).2.Swept := h.setting (by rw [debuggerBlocks_snd])
    cases headway handler count allowance report e with
    | rest _ _ _ hr =>
      rw [hr]
      exact h
    | drop hq hn _ => exact absurd hn (h.found.allLive _ (hq ▸ List.mem_cons_self))
    | hold t hr =>
      rw [hr]
      exact hblock t
    | @run t ts hp hq _ hr =>
      have hrun := (hblock t).runTask ((stopRequested_debuggerBlocks e t).trans hp)
        ((tasks_debuggerBlocks e t).trans hq)
      rcases hr with ⟨_, hr⟩ | hr
      · rw [hr]
        exact hrun.setting rfl
      · rw [hr]
        exact ih hrun _ _

theorem endTick (report : TickReport) : (Engine.endTick report e).2.Swept := by
  have hrecord {e : Engine} (h : e.Swept) : (e.record .tickEnded).Swept :=
    h.strokes (.single (.note rfl rfl rfl))
  unfold Engine.endTick
  dsimp only
  split
  · exact hrecord h.shutdown
  · exact hrecord h

/-- **A tick leaves nobody over.** -/
theorem tick (allowance : Option Nat) : (e.tick handler allowance).2.Swept := by
  unfold Engine.tick
  split
  · exact (h.runTasks _ _ _).endTick _
  · exact h.endTick _

theorem runUntilIdle (allowance : Option Nat) (maxTicks : Nat) :
    (Engine.runUntilIdle handler allowance maxTicks e).2.Swept := by
  induction maxTicks generalizing e with
  | zero => exact h
  | succ maxTicks ih =>
    unfold Engine.runUntilIdle
    split
    · exact h
    · exact ih (h.tick allowance)

/-! ## 4. What the host asks for -/

/-- **A flow that nobody called** stays, whether or not anything can run in it. -/
theorem startFlow (flow : Nat) : Upholds Swept (fun _ _ => True) (Engine.startFlow flow) e := by
  unfold Engine.startFlow
  have hstart : Swept { e.record .restarted with
      stopped := false, stopRequested := false, lastError := none } :=
    h.leaps (.single .restart) h.idle (h.cleared.of_eq rfl rfl)
  refine upholds_modify_bind ?_
  generalize hrestart : { e.record .restarted with
    stopped := false, stopRequested := false, lastError := none } = e₁ at hstart ⊢
  have hstopped : e₁.stopped = false := hrestart ▸ rfl
  unfold Upholds
  rcases create_cases e₁ flow none false with ⟨err, he⟩ | ⟨f, hf, hp, he⟩
  · rw [he]
    exact hstart
  · rw [he]
    have hpaces : Paces False untouched e₁ (e₁.arisen flow f none false) :=
      .single (.begin hf hstopped)
    refine ⟨hstart.paces hpaces ?_, trivial⟩
    refine (hstart.cleared.arisen hstart.inv flow f hp rfl).checked fun hc => ?_
    obtain ⟨s, hs, hparent⟩ := parent_arisen hstart.inv hf hp rfl
    have haction := (hpaces.inv hstart.inv).sound.isAction_eq _ s hs
    rw [isAction_of_isCollectible hc hs, hparent] at haction
    cases haction

theorem withGiven {α : Type} {a : Value → Act α}
    (ha : ∀ v e, Swept e → Upholds Swept (fun _ _ => True) (a v) e) (g : InstrumentFlow.Given) :
    Upholds Swept (fun _ _ => True) (Engine.withGiven g a) e := by
  have hplace : (e.placeGiven g).2.Swept :=
    h.strokes (.single (.aside rfl rfl False.elim))
  unfold Engine.withGiven
  exact upholds_get (upholds_set_bind (ha _ _ hplace))

theorem setInput (i : InstanceId) (slot : Nat) (v : Value) :
    Upholds Swept (fun _ _ => True) (Engine.setInput i slot v) e := by
  unfold Engine.setInput
  refine upholds_get ?_
  split
  · exact upholds_throw h
  dsimp only
  split
  · have hwrite : Strokes False untouched e (e.writeSlot i slot v) := .single (.write False.elim)
    exact upholds_set (h.strokes (strokes_pingAll hwrite rfl i _)) trivial
  · exact upholds_throw h

theorem setGlobal (index : Nat) (v : Value) :
    Upholds Swept (fun _ _ => True) (Engine.setGlobal index v) e := by
  unfold Engine.setGlobal
  refine upholds_get ?_
  split
  · exact upholds_set (h.strokes (.single (.global False.elim))) trivial
  · exact upholds_throw h

theorem perform (command : Command) (hc : command.isOutward = true) :
    (Engine.perform handler command e).2.Swept := by
  cases command with
  | startFlow flow => exact upholds_replyOf (h.startFlow flow)
  | stop => exact h.paces (.single .stop) (h.cleared.of_eq rfl rfl)
  | shutdown => exact h.shutdown
  | attach | detach | pause | resume | singleStep => exact h.setting rfl
  | tick => exact h.tick _
  | runUntilIdle maxTicks => exact h.runUntilIdle _ maxTicks
  | setInput i slot value =>
    exact upholds_replyOf (h.withGiven (fun v _ h => h.setInput i slot v) value)
  | setGlobal index value =>
    exact upholds_replyOf (h.withGiven (fun v _ h => h.setGlobal index v) value)
  | _ => cases hc

/-- **Whatever an application asks for** leaves nobody over. -/
theorem move (m : Move) (hm : m.isOutward = true) : (e.move m).Swept := by
  cases m with
  | order o =>
    have hperform := h.perform o.command hm
    show (performOrder handler o e).2.Swept
    rcases performOrder_cases handler o e with he | ⟨_, _, he⟩
    · rwa [he]
    · rw [he]
      exact hperform.setting rfl
  | tick allowance => exact h.tick allowance
  | idle allowance maxTicks => exact h.runUntilIdle allowance maxTicks
  | pass clock => exact h.setting rfl
  | serve ledger dispatcher => exact h.strokes (.single (.request ledger dispatcher))
  | turn host => exact h.setting rfl

theorem after (moves : List Move) (hm : ∀ m ∈ moves, m.isOutward = true) :
    (e.after moves).Swept := by
  induction moves generalizing e with
  | nil => exact h
  | cons m moves ih =>
    exact ih (h.move m (hm m List.mem_cons_self)) fun m' hm' => hm m' (List.mem_cons_of_mem m hm')

omit h in
theorem built {d : Definition} {config : Config} {dispatcher : Dispatcher} {host : Host}
    (hb : build d config dispatcher host = .ok e) (hh : d.Hostless) : e.Swept := by
  have hi : Inv False e := inv_build hb False.elim
  obtain ⟨_, rfl⟩ := build_eq_ok_iff.mp hb
  exact ⟨hi, hh, fun _ h => (nomatch h), rfl, fun i hc =>
    live_of_isCollectible hc (instance?_built d config dispatcher host i)⟩

end Swept

/-! ## 5. Every run -/

/-- A called instance where something can run waits for something, or it is at work itself. -/
theorem marked_or_works {e : Engine} (hi : Inv False e) {i : InstanceId} {s : Instance}
    (hs : e.instance? i = some s) (ha : s.isAction = true) (hc : e.isCollectible i = false) :
    (∃ c, e.Marked i c) ∨ e.Works i := by
  refine Classical.byContradiction fun h => ?_
  obtain ⟨hmarked, hworks⟩ := not_or.mp h
  have hidle : e.IsIdle i := by
    refine ⟨s, hs, ha, eq_false_of_ne_true fun ht => hworks ⟨s, hs, Or.inl ht⟩, fun p hp => ?_⟩
    exact eq_false_of_ne_true fun hk => hworks ⟨s, hs, Or.inr ⟨p, hp, hk⟩⟩
  rw [(isCollectible_iff hi.fits i).mpr ⟨hidle, not_exists.mp hmarked⟩] at hc
  cases hc

/-- **Nothing that has finished is left over.** In every run of flows without components of the host,
    driven by whatever an application asks for from outside, between calls and between the steps of
    a tick: no called instance has nothing left to do, each of them waits for something or is at
    work. So it is with the next call, too: the one that takes the last of it from an instance
    destroys that instance. -/
theorem nothing_left_over {d : Definition} {config : Config} {dispatcher : Dispatcher}
    {host : Host} {e₀ : Engine} (hb : build d config dispatcher host = .ok e₀) (hh : d.Hostless)
    (moves : List Move) (hm : ∀ m ∈ moves, m.isOutward = true) (count : Nat)
    (allowance : Option Nat) (report : TickReport) {e : Engine}
    (he : e = (runTasks handler count allowance report (e₀.after moves)).2) :
    (∀ i, e.isCollectible i = false)
    ∧ (∀ i s, e.instance? i = some s → s.isAction = true → (∃ c, e.Marked i c) ∨ e.Works i)
    ∧ ∀ m : Move, m.isOutward = true → ∀ i, (e.move m).isCollectible i = false := by
  have hnobody {e : Engine} (h : e.Swept) (i : InstanceId) : e.isCollectible i = false :=
    eq_false_of_ne_true fun hc => h.cleared i hc
  have hswept : e.Swept := he ▸ ((Swept.built hb hh).after moves hm).runTasks count allowance report
  exact ⟨hnobody hswept, fun i s hs ha => marked_or_works hswept.inv hs ha (hnobody hswept i),
    fun m hm => hnobody (hswept.move m hm)⟩

/-- A flow that catches errors calls another one, where two components fail. -/
def failingDefinition : Definition :=
  { flows :=
      [{ name := "main"
         components := [{ kind := .callAction, payload := [1, 0] }, { kind := .catchError }] },
       { name := "inner", components := [{ kind := .log }, { kind := .log }] }] }

/-- The flow is started, and it calls the other one. -/
def failingMoves : List Move := [.order ⟨.startFlow 0, none⟩, .tick none]

/-- The first component of the called flow has failed, in the middle of the next tick. -/
def failing : Engine :=
  (runTasks handler 1 none {} ((built failingDefinition {} .absent {}).after failingMoves)).2

/-- The called flow has failed but is kept, until a tick clears away the last task of it and
    destroys it. -/
theorem nothing_left_over_failing :
    build failingDefinition {} .absent {} = .ok (built failingDefinition {} .absent {})
    ∧ failingDefinition.Hostless
    ∧ (∀ m ∈ failingMoves, m.isOutward = true)
    ∧ (failing.instance? ⟨1, 0⟩).any (·.failed) = true
    ∧ ((∃ c, failing.Marked ⟨1, 0⟩ c) ∨ failing.Works ⟨1, 0⟩)
    ∧ (∀ i, (failing.move (.tick none)).isCollectible i = false)
    ∧ (failing.move (.tick none)).instance? ⟨1, 0⟩ = none := by
  have hb : build failingDefinition {} .absent {} = .ok (built failingDefinition {} .absent {}) :=
    rfl
  have hh : failingDefinition.Hostless := by decide +kernel
  have hm : ∀ m ∈ failingMoves, m.isOutward = true := by
    simp [failingMoves, Move.isOutward, Command.isOutward]
  have hfailed : (failing.instance? ⟨1, 0⟩).any (·.failed) = true := by decide +kernel
  have hcalled : (failing.instance? ⟨1, 0⟩).map (·.isAction) = some true := by decide +kernel
  have hgone : ((failing.move (.tick none)).instance? ⟨1, 0⟩).isNone = true := by decide +kernel
  obtain ⟨s, hs, ha⟩ := Option.map_eq_some_iff.mp hcalled
  obtain ⟨_, hkept, hnext⟩ := nothing_left_over hb hh failingMoves hm 1 none {} (e := failing) rfl
  exact ⟨hb, hh, hm, hfailed, hkept _ s hs ha, hnext _ rfl,
    Option.isNone_iff_eq_none.mp hgone⟩

end Engine

end InstrumentFlow
