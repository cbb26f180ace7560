import InstrumentFlow.Proofs.Clearance.Spared
import InstrumentFlow.Proofs.Engine.Reached
import InstrumentFlow.Proofs.Reach
import InstrumentFlow.Proofs.Readiness

/-!
# What is left of an instance that has failed

When an error is caught by a caller, the instances below it have failed. No step of them begins any
more, and a task that is still queued for them is only cleared away. But whether the first task of
the queue is ready is looked at before whether its instance has failed: a task whose component lost
an input in the meantime is never cleared away, and nothing behind it has its turn.

* `Condemned` -- an instance that has failed stays so until it is destroyed;
* `Drains`, `Leaps.drains` -- and no step of it begins until then, in whatever happens in a run;
* `clearedAway_turn`, `tick_of_ready` -- a task of it that is ready, or is to go on, is cleared away;
* `tick_of_not_ready`, `ticks_of_not_ready` -- any other stays, and everything behind it;
* `failed_instance_drains` -- **what becomes of tasks of an instance that has failed**.
-/

namespace InstrumentFlow.Engine

variable {closed stateless : Prop} {own : Leeway} {i : InstanceId} {e e' e'' : Engine}

/-! ## 1. Marks of failure -/

/-- **An instance that has failed stays so**, or is reported to be destroyed. -/
def Condemned (i : InstanceId) (e e' : Engine) : Prop :=
  ∃ news, e'.journal = news ++ e.journal
    ∧ (e.HasFailed i → e'.HasFailed i ∨ .destroyed i ∈ news)

namespace Condemned

theorem stays (hs : StaysFailed e e') (hj : e.journal <:+ e'.journal) : Condemned i e e' := by
  obtain ⟨news, hnews⟩ := hj
  exact ⟨news, hnews.symm, fun hf => Or.inl (hs i hf)⟩

theorem trans (h : Condemned i e e') (h' : Condemned i e' e'') : Condemned i e e'' := by
  obtain ⟨news, hj, hf⟩ := h
  obtain ⟨news', hj', hf'⟩ := h'
  refine ⟨news' ++ news, by rw [hj', hj, List.append_assoc], fun hfailed => ?_⟩
  rcases hf hfailed with hfailed' | hgone
  · exact (hf' hfailed').imp_right (List.mem_append_left _)
  · exact Or.inr (List.mem_append_right _ hgone)

theorem silent (hf : e'.forest = e.forest) (hj : e.journal <:+ e'.journal) : Condemned i e e' :=
  stays (.of_forest hf) hj

end Condemned

/-- A pace is a stroke, or it gives and takes no progress. -/
theorem Pace.untouched_or (h : Pace closed own e e') :
    Stroke closed own e e' ∨ Pace closed untouched e e' := by
  cases h with
  | stroke h => exact Or.inl h
  | await j c => exact Or.inr (.await j c)
  | release child j c => exact Or.inr (.release child j c)
  | begin hf hs => exact Or.inr (.begin hf hs)
  | call hf hl => exact Or.inr (.call hf hl)
  | destroy h => exact Or.inr (.destroy h)
  | settle h => exact Or.inr (.settle h)
  | stop => exact Or.inr .stop

theorem Pace.condemned (h : Pace closed own e e') (hi : Inv closed e) : Condemned i e e' := by
  have hchanges := (h.course hi).changes hi
  obtain ⟨news, hj⟩ := hchanges.journal
  refine ⟨news, hj.symm, fun ⟨s, hs, hf⟩ => ?_⟩
  cases hl : e'.instance? i with
  | none =>
    obtain ⟨news', hj', hgone⟩ := hchanges.reported_news hi hs hl
    rw [List.append_cancel_right (hj.trans hj')]
    exact Or.inr hgone
  | some s' =>
    refine Or.inl ?_
    rcases h.untouched_or with hstroke | hpace
    · exact hstroke.staysFailed i ⟨s, hs, hf⟩
    · have hlive : e.instance? i ≠ none := by
        rw [hs]
        exact Option.some_ne_none s
      have hunmoved : Unmoved i 0 e e' :=
        hpace.unmoved hi (fun _ => id) hlive (by rw [hl]; exact Option.some_ne_none s')
      exact hunmoved.staysFailed ⟨s, hs, hf⟩

theorem Paces.condemned (h : Paces closed own e e') (hi : Inv closed e) : Condemned i e e' := by
  induction h with
  | refl => exact .silent rfl List.suffix_rfl
  | tail hs h ih => exact ih.trans (h.condemned (Paces.inv hs hi))

theorem condemned_continueLater (e : Engine) (j : InstanceId) (c : Nat) :
    Condemned i e (e.continueLater j c) := by
  rcases continueLater_cases e j c with ⟨queue, _, he⟩ | ⟨_, he⟩
  · rw [he]
    exact .silent rfl (List.suffix_cons _ _)
  · rw [he]
    have hrefused : Condemned i e (e.record (.refused ⟨j, c, true⟩)) :=
      .silent rfl (List.suffix_cons _ _)
    have hrelease : Strokes False nobody (e.record (.refused ⟨j, c, true⟩))
        ((e.record (.refused ⟨j, c, true⟩)).releaseProgress j c) := strokes_releaseProgress .refl rfl
    obtain ⟨news, htold, _⟩ := hrelease.tells
    exact (hrefused.trans (.stays (.releaseProgress _ j c) ⟨news, htold.journal.symm⟩)).trans
      (.stays (.failFatally _ j c _) (List.suffix_append [Event.stopAsked, .failed j c _] _))

theorem condemned_afterStep (j : InstanceId) (c : Nat)
    (outcome : EStateM.Result FlowError Engine Step) :
    Condemned i (stateAfter outcome) (afterStep j c outcome) := by
  have hend (e : Engine) (midway : Bool) : Condemned i e (e.endStep j c midway) :=
    .silent rfl (List.suffix_cons _ _)
  match outcome with
  | .ok .completed e => exact hend e false
  | .ok .suspended e => exact (hend e true).trans (condemned_continueLater _ j c)
  | .error _ e => exact hend e false

/-- A task. -/
theorem condemned_runTask (handler : Handler) (hi : Inv closed e) (hh : e.definition.Hostless)
    (t : Task) : Condemned i e (e.runTask handler t) := by
  exact runTask_preserves hi handler (fun c hc => only_componentOf? hh hc)
    (fun hi₁ h hcondemned => hcondemned.trans (h.condemned hi₁))
    (fun hcondemned => hcondemned.trans (.silent rfl (List.suffix_cons _ _)))
    (fun c _ hcondemned => hcondemned.trans (condemned_afterStep _ _ _))
    (.silent rfl List.suffix_rfl)

theorem Leap.condemned (h : Leap closed True stateless e e') (hi : Inv closed e) : Condemned i e e' := by
  cases h with
  | pace _ h => exact h.condemned hi
  | raise j c message => exact (strokes_raised hi j c message).paces.condemned hi
  | @task handler t ts hh _ _ =>
    have htake : Condemned i e (e.takeTask t) := .silent rfl (List.suffix_cons _ _)
    exact htake.trans (condemned_runTask handler ((touches_takeTask t).inv hi) hh t)
  | @discard t ts _ _ => exact .silent rfl (List.suffix_append [Event.discarded t, .taken t] _)
  | restart | halt _ => exact .silent rfl (List.suffix_cons _ _)
  | setting he _ =>
    refine .silent ?_ ?_
    all_goals rw [he]
  | keep _ j c state =>
    unfold setHostState allocateProgress releaseProgress
    split
    · split
      · exact .stays (.setProgress e j c _) (List.suffix_cons _ _)
      · exact .silent rfl List.suffix_rfl
    · split
      · exact .stays (.setProgress e j c _) (List.suffix_cons _ _)
      · exact .silent rfl List.suffix_rfl
  | take hn _ | beginStep hn _ | endStep hn _ _ _ | resume hn _ _ => exact absurd trivial hn

/-! ## 2. Steps -/

/-- No step of the instance begins. -/
def Unstepped (i : InstanceId) (news : List Event) : Prop :=
  ∀ t : Task, t.instanceId = i → .stepped t ∉ news

theorem Unstepped.append {news news' : List Event} (h : Unstepped i news) (h' : Unstepped i news') :
    Unstepped i (news' ++ news) := fun t ht hmem =>
  (List.mem_append.mp hmem).elim (h' t ht) (h t ht)

theorem unstepped_of_told {bar : Event → Bool} (hbar : ∀ t, bar (.stepped t) = true)
    (h : ToldWithout bar e e') {news : List Event} (hj : e'.journal = news ++ e.journal) :
    Unstepped i news := by
  obtain ⟨news', htold, hn⟩ := h
  rw [List.append_cancel_right (hj.symm.trans htold.journal)]
  intro t _ hmem
  have hbarred := hn _ hmem
  rw [hbar] at hbarred
  cases hbarred

/-- **Whatever happens in a run**, no step of an instance that has failed begins. -/
theorem Leap.unstepped (h : Leap closed True stateless e e') (hi : Inv closed e) (hf : e.HasFailed i)
    {news : List Event} (hj : e'.journal = news ++ e.journal) : Unstepped i news := by
  have htells (h : Tells e e') : Unstepped i news := unstepped_of_told (fun _ => rfl) h hj
  have hnews (events : List Event) (hevents : e'.journal = events ++ e.journal)
      (hnone : ∀ t, .stepped t ∉ events) : Unstepped i news := by
    rw [List.append_cancel_right (hj.symm.trans hevents)]
    exact fun t _ => hnone t
  cases h with
  | pace _ h => exact htells h.tells
  | raise j c message =>
    have hraise : Strokes closed anybody e (e.raiseError j c message) :=
      strokes_raised hi j c _
    exact htells hraise.tells
  | @task handler t ts hh _ _ =>
    obtain ⟨s, hs, hfailed⟩ := hf
    have hit := (touches_takeTask t).inv hi
    obtain ⟨later, htold, _⟩ := told_runTask hit hh handler t
    rw [List.append_cancel_right (hj.symm.trans (htold.journal.trans
      (List.append_assoc later [Event.taken t] e.journal).symm))]
    -- the step of a task belongs to an instance that has not failed
    intro t' ht' hmem
    rcases List.mem_append.mp hmem with hmem | hmem
    · obtain ⟨rfl, s', _, hs', hf', _⟩ := stepped_runTask handler hit hh htold.journal hmem
      rw [ht'] at hs'
      rw [Option.some.inj (hs'.symm.trans hs), hfailed] at hf'
      cases hf'
    · cases List.mem_singleton.mp hmem
  | @discard t ts _ _ => exact hnews [.discarded t, .taken t] rfl fun _ => by simp
  | restart => exact hnews [.restarted] rfl fun _ => by simp
  | halt _ => exact hnews [.halted] rfl fun _ => by simp
  | setting he _ => exact hnews [] (by rw [he]; rfl) fun _ => by simp
  | keep _ j c state => exact htells (told_setHostState e j c state)
  | take hn _ | beginStep hn _ | endStep hn _ _ _ | resume hn _ _ => exact absurd trivial hn

/-! ## 3. Runs -/

/-- **An instance that has failed only drains**: it stays so and no step of it begins, unless it is
    destroyed, and then none began before. -/
def Drains (i : InstanceId) (e e' : Engine) : Prop :=
  ∃ news, e'.journal = news ++ e.journal ∧ (e.HasFailed i →
    (e'.HasFailed i ∧ Unstepped i news)
      ∨ ∃ later earlier, news = later ++ .destroyed i :: earlier ∧ Unstepped i earlier)

theorem Drains.trans (h : Drains i e e') (h' : Drains i e' e'') : Drains i e e'' := by
  obtain ⟨news, hj, hn⟩ := h
  obtain ⟨news', hj', hn'⟩ := h'
  refine ⟨news' ++ news, by rw [hj', hj, List.append_assoc], fun hf => ?_⟩
  rcases hn hf with ⟨hf', hunstepped⟩ | ⟨later, earlier, rfl, hunstepped⟩
  · rcases hn' hf' with ⟨hf'', hunstepped'⟩ | ⟨later, earlier, rfl, hunstepped'⟩
    · exact Or.inl ⟨hf'', hunstepped.append hunstepped'⟩
    · refine Or.inr ⟨later, earlier ++ news, ?_, hunstepped.append hunstepped'⟩
      rw [List.append_assoc, List.cons_append]
  · exact Or.inr ⟨news' ++ later, earlier, by rw [List.append_assoc], hunstepped⟩

theorem Leap.drains (h : Leap closed True stateless e e') (hi : Inv closed e) : Drains i e e' := by
  have hcondemned : Condemned i e e' := h.condemned hi
  obtain ⟨news, hj, hf⟩ := id hcondemned
  refine ⟨news, hj, fun hfailed => ?_⟩
  have hunstepped := h.unstepped hi hfailed hj
  rcases hf hfailed with hfailed' | hgone
  · exact Or.inl ⟨hfailed', hunstepped⟩
  · obtain ⟨later, earlier, rfl⟩ := List.append_of_mem hgone
    refine Or.inr ⟨later, earlier, rfl, fun t ht hmem => hunstepped t ht ?_⟩
    exact List.mem_append_right _ (List.mem_cons_of_mem _ hmem)

/-- **An instance that has failed only drains**, whatever the host does. -/
theorem Leaps.drains (h : Leaps closed True stateless e e') (hi : Inv closed e) :
    Drains i e e' := by
  induction h with
  | refl => exact ⟨[], rfl, fun hf => Or.inl ⟨hf, fun _ _ h => nomatch h⟩⟩
  | tail hs h ih => exact ih.trans (h.drains (Leaps.inv hs hi))

/-! ## 4. Tasks of an instance that has failed -/

/-- Progress is there for components only. -/
theorem progress?_of_no_component (hi : Inv closed e) {c : Nat} (hn : e.componentOf? i c = none) :
    e.progress? i c = none := by
  refine Option.eq_none_iff_forall_ne_some.mpr fun p hp => ?_
  obtain ⟨s, hs, hlt⟩ := (Option.any_eq_true _ _).mp (hasComponent_of_progress? hp)
  obtain ⟨f, hf, _, _, hprogress, _⟩ := (hi.fits i s hs).flow
  rw [hprogress] at hlt
  unfold componentOf? Definition.component? at hn
  rw [hs, Option.bind_some, hf, Option.bind_some,
    List.getElem?_eq_getElem (of_decide_eq_true hlt)] at hn
  cases hn

theorem queue_resetSequenceInputs (e : Engine) (i : InstanceId) (c : Nat) :
    (e.resetSequenceInputs i c).queue = e.queue := by
  unfold resetSequenceInputs
  generalize e.sequenceInputs i c = slots
  induction slots generalizing e with
  | nil => rfl
  | cons slot slots ih => exact (ih _).trans (queue_clearSlot e i slot)

theorem queue_tidy (hi : Inv closed e) (i : InstanceId) (c : Nat) :
    (e.tidy i c).queue.tasks.Sublist e.queue.tasks := by
  have hreset : Strokes closed nobody e (e.resetSequenceInputs i c) :=
    strokes_resetSequenceInputs .refl i c
  have hsettled : Paces closed nobody e ((e.resetSequenceInputs i c).record (.settled i c)) :=
    hreset.paces.tail (.settle (pulsesGone_resetSequenceInputs e i c))
  have hi' := hsettled.inv hi
  have hqueue : ((e.resetSequenceInputs i c).record (.settled i c)).queue.tasks = e.queue.tasks :=
    congrArg (·.tasks) (queue_resetSequenceInputs e i c)
  unfold tidy collect
  split
  · rw [queue_free hi', ← hqueue]
    exact List.filter_sublist
  · rw [hqueue]

/-- **The first task of the queue is cleared away**: it is gone and none came, its component has no
    progress, and no step began. -/
structure ClearedAway (t : Task) (e e' : Engine) : Prop where
  queue : e'.queue.tasks.Sublist e.queue.tasks.tail
  progress : e'.progress? t.instanceId t.component = none
  steps : ∃ news, e'.journal = news ++ e.journal ∧ ∀ t', .stepped t' ∉ news

section

variable (handler : Handler) (hi : Inv closed e) {t : Task} (hf : e.HasFailed t.instanceId)
include hi hf

theorem paces_failedTask : Paces closed (alone t.instanceId t.component) e (e.runTask handler t) := by
  obtain ⟨s, hs, hfailed⟩ := hf
  rcases runTask_cases hi handler t with hpaces | ⟨s', _, hs', _, hf', _⟩
  · exact hpaces
  · rw [Option.some.inj (hs'.symm.trans hs), hfailed] at hf'
    cases hf'

/-- **The turn of a task of an instance that has failed.** -/
theorem clearedAway_turn : ClearedAway t e ((e.takeTask t).runTask handler t) := by
  have hit : Inv closed (e.takeTask t) := (touches_takeTask t).inv hi
  have hpaces := paces_failedTask handler hit (t := t) hf
  obtain ⟨s, hs, hfailed⟩ := hf
  have hrecord := componentOf?_of_live (e := e.takeTask t) hs t.component
  have hrelease : Strokes closed anybody (e.takeTask t)
      ((e.takeTask t).releaseProgress t.instanceId t.component) :=
    strokes_releaseProgress .refl trivial
  have hi' := hrelease.inv hit
  -- the task ends the progress of the component, or there is no such component
  have hrun : (e.takeTask t).runTask handler t
        = ((e.takeTask t).releaseProgress t.instanceId t.component).tidy t.instanceId t.component
      ∨ (e.takeTask t).componentOf? t.instanceId t.component = none
        ∧ ∃ message, (e.takeTask t).runTask handler t
          = (e.takeTask t).failFatally t.instanceId t.component message := by
    unfold runTask
    rw [show (e.takeTask t).instance? t.instanceId = some s from hs]
    dsimp only
    split
    · next herror =>
      rw [herror] at hrecord
      exact Or.inr ⟨hrecord, _, rfl⟩
    · exact Or.inl (if_pos hfailed)
  refine ⟨?_, ?_, ?_⟩
  · rcases hrun with hrun | ⟨_, message, hrun⟩
    · rw [hrun]
      refine (queue_tidy hi' _ _).trans ?_
      rw [queue_releaseProgress]
      exact List.Sublist.refl _
    · rw [hrun]
      exact List.Sublist.refl _
  · rcases hrun with hrun | ⟨hnone, message, hrun⟩
    · have htidy : Paces closed nobody _
          (((e.takeTask t).releaseProgress t.instanceId t.component).tidy
            t.instanceId t.component) := paces_tidy hi' .refl _ _
      rw [hrun]
      exact (htidy.retains hi').empty (progress?_releaseProgress _ _ _)
    · rw [hrun, progress?_failFatally]
      exact progress?_of_no_component hit hnone
  · obtain ⟨news, htold, hn⟩ := hpaces.tells
    refine ⟨news ++ [.taken t], ?_, fun t' hmem => ?_⟩
    · rw [htold.journal, List.append_assoc]
      rfl
    · rcases List.mem_append.mp hmem with hmem | hmem
      · cases hn _ hmem
      · cases List.mem_singleton.mp hmem

end

/-! ## 5. Ticks -/

/-- The rest of a tick that reaches for so many more tasks. -/
def restOfTick (handler : Handler) (count : Nat) (allowance : Option Nat) (report : TickReport)
    (e : Engine) : TickReport × Engine :=
  endTick (runTasks handler count allowance report e).1 (runTasks handler count allowance report e).2

section

variable {t : Task} {ts : List Task} (handler : Handler) (hq : e.queue.tasks = t :: ts)
  (hf : e.HasFailed t.instanceId) (hp : e.stopRequested = false)
include hq hf hp

/-- **A task that is ready, or is to go on, is cleared away** at the beginning of a tick, which goes on
    with what is left. -/
theorem tick_of_ready (hi : Inv closed e) (hs : e.stopped = false) (hr : e.host.isRunning = true)
    (hd : e.debugger = none)
    (hready : t.continuous = true ∨ e.dataReady t.instanceId t.component = true)
    {allowance : Option Nat} (ha : allowance ≠ some 0) :
    e.tick handler allowance = restOfTick handler ts.length (allowance.map (· - 1)) { executed := 1 }
      ((e.takeTask t).runTask handler t) := by
  obtain ⟨s, hlive, _⟩ := id hf
  have hcontains : e.forest.contains t.instanceId = true := Forest.contains_iff.mpr ⟨s, hlive⟩
  have hframe := (paces_failedTask handler (e := e.takeTask t) ((touches_takeTask t).inv hi) hf).frame
  have hdebugger : ((e.takeTask t).runTask handler t).debugger = none := hframe.debugger.trans hd
  have hblocks : e.debuggerBlocks t = (false, e) := by
    unfold debuggerBlocks
    rw [hd]
  have hturn : runTasks handler (ts.length + 1) allowance {} e
      = runTasks handler ts.length (allowance.map (· - 1)) { executed := 1 }
        ((e.takeTask t).runTask handler t) := by
    have hgoes : (!t.continuous && !e.dataReady t.instanceId t.component) = false := by
      rcases hready with hready | hready <;> simp [hready]
    rw [runTasks]
    simp only [hp, ha, hq, hcontains, hgoes, hblocks, hdebugger, Bool.not_true, if_false,
      Bool.false_eq_true, reduceCtorEq]
  have hsize : e.queue.size = ts.length + 1 := congrArg List.length hq
  unfold tick restOfTick
  rw [hp, hs, hr, hsize, hturn]
  rfl

variable (hready : ¬(t.continuous = true ∨ e.dataReady t.instanceId t.component = true))
include hready

/-- **Any other task stays**, and everything behind it: the tick changes nothing. -/
theorem tick_of_not_ready (allowance : Option Nat) :
    (e.tick handler allowance).2 = e.record .tickEnded := by
  obtain ⟨s, hlive, _⟩ := id hf
  have hcontains : e.forest.contains t.instanceId = true := Forest.contains_iff.mpr ⟨s, hlive⟩
  have hend (report : TickReport) : (endTick report e).2 = e.record .tickEnded := by
    unfold endTick
    rw [hp]
    rfl
  have hstays (count : Nat) (report : TickReport) :
      (runTasks handler count allowance report e).2 = e := by
    cases count with
    | zero => rfl
    | succ count =>
      obtain ⟨hcontinuous, hdata⟩ := not_or.mp hready
      have hstalls : (!t.continuous && !e.dataReady t.instanceId t.component) = true := by
        rw [eq_false_of_ne_true hcontinuous, eq_false_of_ne_true hdata]
        rfl
      rw [runTasks]
      simp only [hp, hq, hcontains, hstalls, Bool.not_true, if_false, if_true, Bool.false_eq_true]
      split <;> rfl
  unfold tick
  split
  · dsimp only
    rw [hstays, hend]
  · exact hend {}

/-- **Nothing ever has its turn again**, as long as the host lets the program alone. -/
theorem ticks_of_not_ready (allowances : List (Option Nat)) :
    allowances.foldl (fun e allowance => (e.tick handler allowance).2) e
      = { e with journal := List.replicate allowances.length .tickEnded ++ e.journal } := by
  induction allowances generalizing e with
  | nil => rfl
  | cons allowance allowances ih =>
    rw [List.foldl_cons, tick_of_not_ready handler hq hf hp hready]
    refine (ih (e := e.record .tickEnded) hq hf hp hready).trans ?_
    rw [List.length_cons, List.replicate_succ', List.append_assoc]
    rfl

end

/-- **What becomes of tasks of an instance that has failed.** In every state of every run of flows
    without components of the host: whatever the host does, an instance that has failed stays so and
    no step of it begins, until it is destroyed. While the run goes on and no debugger interferes, a
    tick clears the first task away, if that belongs to such an instance and is ready or is to go on:
    no step begins, the progress of the component is ended, and the tick goes on with what is left.
    A first task that is not ready stays instead, and no task has its turn in that tick or in any
    later one. -/
theorem failed_instance_drains {d : Definition} (h : Reached d e) (hh : d.Hostless) {t : Task}
    {ts : List Task} (hq : e.queue.tasks = t :: ts) (hf : e.HasFailed t.instanceId)
    (hp : e.stopRequested = false) (hr : e.host.isRunning = true) (hd : e.debugger = none) :
    (∀ moves, Drains t.instanceId e (e.after moves))
    ∧ (t.continuous = true ∨ e.dataReady t.instanceId t.component = true →
      ClearedAway t e ((e.takeTask t).runTask handler t)
      ∧ ∀ allowance, allowance ≠ some 0 →
        e.tick handler allowance = restOfTick handler ts.length (allowance.map (· - 1))
          { executed := 1 } ((e.takeTask t).runTask handler t))
    ∧ (¬(t.continuous = true ∨ e.dataReady t.instanceId t.component = true) →
      ∀ allowances : List (Option Nat),
        allowances.foldl (fun e allowance => (e.tick handler allowance).2) e
          = { e with journal := List.replicate allowances.length .tickEnded ++ e.journal }) := by
  have hi := h.inv
  have hhostless : True → e.definition.Hostless := fun _ => h.definition ▸ hh
  have hlive : e.instance? t.instanceId ≠ none := by
    obtain ⟨s, hs, _⟩ := hf
    rw [hs]
    exact Option.some_ne_none s
  refine ⟨fun moves => ?_, fun hready => ⟨?_, fun allowance ha => ?_⟩, fun hready => ?_⟩
  · have hleaps : Leaps False True False e (e.after moves) :=
      leaps_after hi hhostless (fun _ => trivial) moves False.elim False.elim
    exact hleaps.drains hi
  · exact clearedAway_turn handler hi hf
  · exact tick_of_ready handler hq hf hp hi (h.going hlive) hr hd hready ha
  · exact ticks_of_not_ready handler hq hf hp hready

/-- A flow calls another one and catches its errors. There a number is sent to a component, and then
    nothing in its place, and an error is raised, before the component has its turn. -/
def abandonedDefinition : Definition :=
  { constants := [.undefined, .null, .int 7, .string "out of range"]
    flows :=
      [{ name := "main"
         components := [{ kind := .callAction, payload := [1, 0] }, { kind := .catchError }] },
       { name := "inner", inputFlags := [0]
         components :=
          [{ kind := .evalExpr, properties := [{ instructions := [2, 0, 0, 224] }]
             outputs := [{ isSequence := true }, { connections := [⟨4, 0, false⟩] }] },
           { kind := .evalExpr, properties := [{ instructions := [0, 0, 0, 224] }]
             outputs := [{ isSequence := true }, { connections := [⟨4, 0, false⟩] }] },
           { kind := .error, properties := [{ instructions := [3, 0, 0, 224] }] },
           { kind := .noop },
           { kind := .log, inputs := [0], properties := [{ instructions := [3, 0, 0, 224] }] }] }] }

/-- The flow is started, and ticks with such allowances follow. -/
def abandoned (allowances : List (Option Nat)) : Engine :=
  (built abandonedDefinition {} .absent {}).after
    (.order ⟨.startFlow 0, none⟩ :: allowances.map .tick)

theorem reached_abandoned (allowances : List (Option Nat)) :
    Reached abandonedDefinition (abandoned allowances) := by
  have hb : build abandonedDefinition {} .absent {}
      = .ok (built abandonedDefinition {} .absent {}) := rfl
  exact reached_after hb _

/-- The component that does nothing, and the one that lost its input. -/
def abandonedTask (component : Nat) : Task := ⟨⟨1, 0⟩, component, false⟩

theorem abandonedTask_blocked (h : e.dataReady ⟨1, 0⟩ 4 = false) :
    ¬((abandonedTask 4).continuous = true
      ∨ e.dataReady (abandonedTask 4).instanceId (abandonedTask 4).component = true) :=
  not_or.mpr ⟨Bool.false_ne_true, ne_true_of_eq_false h⟩

/-- After the error the first task is ready; once it is cleared away, the one that is first then is
    not ready, and behind it waits the component that catches the error. -/
theorem abandoned_spec :
    abandonedDefinition.Hostless
    ∧ (abandoned [none, some 3]).queue.tasks
      = [abandonedTask 3, abandonedTask 4, ⟨⟨0, 0⟩, 1, false⟩]
    ∧ (abandoned [none, some 3]).HasFailed ⟨1, 0⟩
    ∧ (abandoned [none, some 3]).dataReady ⟨1, 0⟩ 3 = true
    ∧ (abandoned [none, some 3, none]).queue.tasks = [abandonedTask 4, ⟨⟨0, 0⟩, 1, false⟩]
    ∧ (abandoned [none, some 3, none]).HasFailed ⟨1, 0⟩
    ∧ (abandoned [none, some 3, none]).dataReady ⟨1, 0⟩ 4 = false := by
  decide +kernel

theorem undisturbed_abandoned :
    ((abandoned [none, some 3]).stopRequested = false
      ∧ (abandoned [none, some 3]).host.isRunning = true
      ∧ (abandoned [none, some 3]).debugger = none)
    ∧ (abandoned [none, some 3, none]).stopRequested = false
      ∧ (abandoned [none, some 3, none]).host.isRunning = true
      ∧ (abandoned [none, some 3, none]).debugger = none := by
  decide +kernel

/-- The first of the two tasks is cleared away. The other one stays first in the queue, and the error
    is never caught. -/
theorem failed_instance_drains_abandoned :
    ClearedAway (abandonedTask 3) (abandoned [none, some 3])
      (((abandoned [none, some 3]).takeTask (abandonedTask 3)).runTask handler (abandonedTask 3))
    ∧ ∀ allowances : List (Option Nat),
      (allowances.foldl (fun e allowance => (e.tick handler allowance).2)
        (abandoned [none, some 3, none])).queue.tasks = [abandonedTask 4, ⟨⟨0, 0⟩, 1, false⟩] := by
  obtain ⟨hh, hq, hf, hready, hq', hf', hnot⟩ := abandoned_spec
  obtain ⟨⟨hp, hr, hd⟩, hp', hr', hd'⟩ := undisturbed_abandoned
  obtain ⟨_, hcleared, _⟩ := failed_instance_drains (reached_abandoned [none, some 3]) hh hq hf hp hr hd
  -- of the state only what is assumed here matters; nothing of the run is computed again
  have hstays (e : Engine) (h : Reached abandonedDefinition e)
      (hq : e.queue.tasks = [abandonedTask 4, ⟨⟨0, 0⟩, 1, false⟩]) (hf : e.HasFailed ⟨1, 0⟩)
      (hp : e.stopRequested = false) (hr : e.host.isRunning = true) (hd : e.debugger = none)
      (hnot : e.dataReady ⟨1, 0⟩ 4 = false) (allowances : List (Option Nat)) :
      (allowances.foldl (fun e allowance => (e.tick handler allowance).2) e).queue.tasks
        = [abandonedTask 4, ⟨⟨0, 0⟩, 1, false⟩] := by
    obtain ⟨_, _, hstays⟩ := failed_instance_drains h hh hq hf hp hr hd
    rw [hstays (abandonedTask_blocked hnot) allowances]
    exact hq
  exact ⟨(hcleared (Or.inr hready)).1, hstays _ (reached_abandoned _) hq' hf' hp' hr' hd' hnot⟩

/-- Not every task of an instance that has failed is cleared away. -/
theorem not_all_cleared_away :
    ¬ ∀ (d : Definition) (e : Engine) (t : Task) (ts : List Task), Reached d e → d.Hostless →
      e.queue.tasks = t :: ts → e.HasFailed t.instanceId → e.stopRequested = false →
      e.host.isRunning = true → e.debugger = none →
      ∃ news, (e.tick handler none).2.journal = news ++ e.journal ∧ .taken t ∈ news := by
  intro h
  obtain ⟨hh, _, _, _, hq, hf, hnot⟩ := abandoned_spec
  obtain ⟨_, hp, hr, hd⟩ := undisturbed_abandoned
  obtain ⟨news, hj, htaken⟩ := h _ _ _ _ (reached_abandoned [none, some 3, none]) hh hq hf hp hr hd
  have htick := tick_of_not_ready handler hq hf hp (abandonedTask_blocked hnot) none
  generalize abandoned [none, some 3, none] = e at hj htick
  rw [htick] at hj
  have hnews : [Event.tickEnded] = news := List.append_cancel_right hj
  rw [← hnews] at htaken
  cases List.mem_singleton.mp htaken

end InstrumentFlow.Engine
