import InstrumentFlow.Engine.Perform
import InstrumentFlow.Proofs.Engine.Pace

/-!
# Leaps

Whatever happens in a run is a row of leaps: paces, tasks as a whole, starts and ends of the run,
and what the host does around it.

* `Leap`, `Leaps` -- one leap; leaps in a row;
* `Leaps.course` -- leaps are a course;
* `HandlerLeaps` -- what is asked of the components of the host;
* `runTask_preserves`, `frame_runTask` -- what a task of the flows keeps;
* `Headway`, `headway` -- what a row of tasks begins with;
* `leaps_turn`, `leaps_runTasks`, `leaps_tick`, `leaps_runUntilIdle` -- tasks and ticks;
* `leaps_shutdown` -- the end of a run.

Two parameters tell what is known of the host: `hostless` that it has no components of its own, and
`stateless` that it keeps no progress for components. Where it has components a task is no leap as a
whole, because others may have their turn in the middle of it.
-/

namespace InstrumentFlow.Engine

/-! ## 1. Leaps -/

/-- The run was brought to its end, with no instance left. -/
def halt (e : Engine) : Engine :=
  { e.record .halted with
    queue := e.queue.clear
    stack := e.stack.cleared
    stopRequested := false
    stopped := true }

/-- **One leap.** -/
inductive Leap (closed hostless stateless : Prop) (e : Engine) : Engine → Prop
  /-- A pace; where there are no components of the host it leaves all progress alone. -/
  | pace {own : Leeway} {e' : Engine} (ho : hostless → ∀ i c p, ¬ own i c p)
      (h : Pace closed own e e') : Leap closed hostless stateless e e'
  /-- The host raises an error. -/
  | raise (i : InstanceId) (component : Nat) (message : String) :
      Leap closed hostless stateless e (e.raiseError i component message)
  /-- The turn of the first task comes, and it is run. -/
  | task {handler : Handler} {t : Task} {ts : List Task} (hh : e.definition.Hostless)
      (hs : e.stopRequested = false) (hq : e.queue.tasks = t :: ts) :
      Leap closed hostless stateless e ((e.takeTask t).runTask handler t)
  /-- The turn of the first task comes, but its instance is gone. -/
  | discard {t : Task} {ts : List Task} (hq : e.queue.tasks = t :: ts)
      (hn : e.instance? t.instanceId = none) :
      Leap closed hostless stateless e ((e.takeTask t).record (.discarded t))
  | take (hn : ¬ hostless) {t : Task} {ts : List Task} (hq : e.queue.tasks = t :: ts) :
      Leap closed hostless stateless e (e.takeTask t)
  | beginStep (hn : ¬ hostless) (t : Task) : Leap closed hostless stateless e (e.beginStep t)
  | endStep (hn : ¬ hostless) (i : InstanceId) (component : Nat) (midway : Bool) :
      Leap closed hostless stateless e (e.endStep i component midway)
  | resume (hn : ¬ hostless) (i : InstanceId) (component : Nat) :
      Leap closed hostless stateless e (e.continueLater i component)
  /-- The run is to go on. -/
  | restart : Leap closed hostless stateless e
      { e.record .restarted with stopped := false, stopRequested := false, lastError := none }
  | halt (hl : ∀ i, e.instance? i = none) : Leap closed hostless stateless e e.halt
  /-- Time passes, the host changes, or a debugger comes or goes. -/
  | setting {e' : Engine}
      (he : e' = { e with
        debugger := e'.debugger, skipBreakpoint := e'.skipBreakpoint, clock := e'.clock
        host := e'.host })
      (hs : closed → e'.Store) : Leap closed hostless stateless e e'
  /-- The host keeps progress for a component, or ends it. -/
  | keep (hn : ¬ stateless) (i : InstanceId) (component : Nat) (state : Option Int32) :
      Leap closed hostless stateless e (e.setHostState i component state)

/-- Leaps in a row. -/
abbrev Leaps (closed hostless stateless : Prop) : Engine → Engine → Prop :=
  Relation.ReflTransGen (Leap closed hostless stateless)

/-! ## 2. Leaps are courses -/

section

variable {closed : Prop} {e : Engine}

theorem touches_takeTask (t : Task) : Touches closed e (e.takeTask t) := by
  have hpop : Touches closed e { e with queue := e.queue.pop } :=
    .single (.drop (List.tail_sublist _) rfl)
  exact hpop.tail (.note rfl rfl)

theorem touches_setHostState (i : InstanceId) (component : Nat) (state : Option Int32) :
    Touches closed e (e.setHostState i component state) := by
  have hset (p : Option Progress) (hp : ∀ l, p ≠ some (.loop l)) :
      Touches closed e (e.setProgress i component p) :=
    .single (.progress fun _ l hl => absurd hl (hp l))
  unfold setHostState
  split
  · unfold allocateProgress
    split
    · exact (hset (some (.host _)) fun _ h => nomatch h).tail (.note rfl rfl)
    · exact .refl
  · unfold releaseProgress
    split
    · exact (hset none fun _ h => nomatch h).tail (.note rfl rfl)
    · exact .refl

variable (hi : Inv closed e)
include hi

/-- A change of what is not stored. -/
theorem touches_beside {e' : Engine} (hd : e'.definition = e.definition)
    (hf : e'.forest = e.forest) (hq : e'.queue = e.queue) (hj : e'.journal = e.journal)
    (hg : e'.globals = e.globals) (hh : e'.heap = e.heap) (ho : e'.host = e.host) :
    Touches closed e e' :=
  .single (.aside hd hf hq hj fun hc =>
    have hs := (hi.plain hc).store
    ⟨hg ▸ hs.globals, hh ▸ hs.heap, ho ▸ hs.host⟩)

theorem touches_beginStep (t : Task) : Touches closed e (e.beginStep t) := by
  have hset : Touches closed e { e with executing := some (t.instanceId, t.component) } :=
    touches_beside hi rfl rfl rfl rfl rfl rfl rfl
  exact hset.tail (.note rfl rfl)

theorem touches_endStep (i : InstanceId) (component : Nat) (midway : Bool) :
    Touches closed e (e.endStep i component midway) := by
  have hset : Touches closed e { e with executing := none } :=
    touches_beside hi rfl rfl rfl rfl rfl rfl rfl
  exact hset.tail (.note rfl rfl)

theorem touches_continueLater (i : InstanceId) (component : Nat) :
    Touches closed e (e.continueLater i component) := by
  rcases continueLater_cases e i component with ⟨queue, hq, he⟩ | ⟨hq, _⟩
  · rw [he]
    exact .single (.push hq (Or.inl rfl))
  · have hrefuse : Touches closed e (e.record (.refused ⟨i, component, true⟩)) :=
      .single (.note rfl rfl)
    have hrest : Strokes closed nobody _ (e.continueLater i component) :=
      strokes_continueLater hq rfl
    exact hrefuse.trans (hrest.touches (hrefuse.inv hi))

omit hi in
theorem touches_afterStep (i : InstanceId) (component : Nat)
    {outcome : EStateM.Result FlowError Engine Step} (hi : Inv closed (stateAfter outcome)) :
    Touches closed (stateAfter outcome) (afterStep i component outcome) := by
  match outcome with
  | .ok .completed e => exact touches_endStep hi i component false
  | .ok .suspended e =>
    have hend : Touches closed e (e.endStep i component true) := touches_endStep hi i component true
    exact hend.trans (touches_continueLater (hend.inv hi) i component)
  | .error _ e => exact touches_endStep hi i component false

/-- **What a task of the flows keeps**: whatever paces keep, if the beginning and the end of a step
    do so, too. -/
theorem runTask_preserves {P : Engine → Prop} (handler : Handler) {t : Task}
    (hk : ∀ c, e.componentOf? t.instanceId t.component = some c → c.kind.isBuiltIn = true)
    (hpaces : ∀ {own : Leeway} {e₁ e₂ : Engine}, Inv closed e₁ → Paces closed own e₁ e₂ →
      P e₁ → P e₂)
    (hbegin : P e → P (e.beginStep t))
    (hend : ∀ c, e.componentOf? t.instanceId t.component = some c →
      P (stateAfter (execute handler t.instanceId t.component c (e.beginStep t))) →
      P (afterStep t.instanceId t.component
        (execute handler t.instanceId t.component c (e.beginStep t))))
    (hp : P e) : P (e.runTask handler t) := by
  rcases runTask_cases hi handler t with h | ⟨s, c, _, hc, _, he⟩
  · exact hpaces hi h hp
  have hib := (touches_beginStep hi t).inv hi
  have hstep := (upholds_execute handler hib hc rfl (hk c hc)).after
  have his := hstep.inv hib
  have hia := (touches_afterStep t.instanceId t.component his).inv his
  have hleft := hend c hc (hpaces hib hstep (hbegin hp))
  rw [he]
  exact hpaces hia (paces_settleOutcome t.instanceId t.component hia) hleft

/-- **A task of the flows** is a course. -/
theorem course_runTask (hh : e.definition.Hostless) (handler : Handler) (t : Task) :
    Course closed e (e.runTask handler t) := by
  refine runTask_preserves hi handler (fun c hc => only_componentOf? hh hc)
    (fun hi₁ h hcourse => hcourse.trans (h.course hi₁))
    (fun hcourse => hcourse.trans (touches_beginStep hi t).course) (fun c _ hcourse => ?_) .refl
  exact hcourse.trans (touches_afterStep t.instanceId t.component (hcourse.inv hi)).course

/-- **A task of the flows keeps the frame of the run**, but for who is running. -/
theorem frame_runTask (handler : Handler) {t : Task}
    (hk : ∀ c, e.componentOf? t.instanceId t.component = some c → c.kind.isBuiltIn = true) :
    ∃ executing, SameFrame { e with executing } (e.runTask handler t) := by
  refine runTask_preserves (P := fun e' => ∃ executing, SameFrame { e with executing } e') hi
    handler hk ?_ ?_ ?_ ⟨e.executing, .refl e⟩
  · rintro own e₁ e₂ _ h ⟨executing, hframe⟩
    exact ⟨executing, hframe.trans h.frame⟩
  · exact fun _ => ⟨_, rfl, rfl, rfl, rfl, rfl, rfl, rfl, rfl, rfl, id⟩
  · rintro c _ ⟨_, hframe⟩
    generalize execute handler t.instanceId t.component c (e.beginStep t) = outcome at hframe
    have hidle : SameFrame { e with executing := none }
        { stateAfter outcome with executing := none } := { hframe with executing := rfl }
    exact ⟨none, hidle.trans (.afterStep t.instanceId t.component outcome)⟩

end

theorem Leap.course {closed hostless stateless : Prop} {e e' : Engine}
    (h : Leap closed hostless stateless e e') (hi : Inv closed e) : Course closed e e' := by
  have hstore (hc : closed) : e.Store := (hi.plain hc).store
  cases h with
  | pace _ h => exact h.course hi
  | raise i component message => exact (strokes_raised hi i component message).paces.course hi
  | @task handler t ts hh _ _ =>
    have htake : Touches closed e (e.takeTask t) := touches_takeTask t
    exact htake.course.trans (course_runTask (htake.inv hi) hh handler t)
  | @discard t ts _ _ =>
    have htake : Touches closed e (e.takeTask t) := touches_takeTask t
    have hnote : Touch closed (e.takeTask t) ((e.takeTask t).record (.discarded t)) :=
      .note rfl rfl
    exact Touches.course (htake.tail hnote)
  | take _ _ => exact (touches_takeTask _).course
  | beginStep _ t => exact (touches_beginStep hi t).course
  | endStep _ i component midway => exact (touches_endStep hi i component midway).course
  | resume _ i component => exact (touches_continueLater hi i component).course
  | restart =>
    have hrecord : Touches closed e (e.record .restarted) := .single (.note rfl rfl)
    refine Touches.course (hrecord.tail (.aside rfl rfl rfl rfl fun hc => ?_))
    exact ⟨(hstore hc).globals, (hstore hc).heap, (hstore hc).host⟩
  | halt _ =>
    have hrecord : Touches closed e (e.record .halted) := .single (.note rfl rfl)
    have hclear : Touches closed e { e.record .halted with queue := e.queue.clear } :=
      hrecord.tail (.drop (List.nil_sublist _) rfl)
    refine Touches.course (hclear.tail (.aside rfl rfl rfl rfl fun hc => ?_))
    exact ⟨(hstore hc).globals, (hstore hc).heap, (hstore hc).host⟩
  | setting he hs =>
    refine Touches.course (.single (.aside ?_ ?_ ?_ ?_ hs))
    all_goals rw [he]
  | keep _ i component state => exact (touches_setHostState i component state).course

/-- **Leaps are a course.** -/
theorem Leaps.course {closed hostless stateless : Prop} {e e' : Engine}
    (h : Leaps closed hostless stateless e e') (hi : Inv closed e) : Course closed e e' := by
  induction h with
  | refl => exact .refl
  | tail _ h ih => exact ih.trans (h.course (ih.inv hi))

theorem Leaps.inv {closed hostless stateless : Prop} {e e' : Engine}
    (h : Leaps closed hostless stateless e e') (hi : Inv closed e) : Inv closed e' :=
  (h.course hi).inv hi

theorem Leaps.definition {closed hostless stateless : Prop} {e e' : Engine}
    (h : Leaps closed hostless stateless e e') (hi : Inv closed e) :
    e'.definition = e.definition := ((h.course hi).changes hi).definition

/-- **What every leap keeps holds along every row of leaps.** -/
theorem Leaps.preserves {closed hostless stateless : Prop} {P : Engine → Prop}
    (hP : ∀ e e', Inv closed e → Leap closed hostless stateless e e' → P e → P e')
    {e e' : Engine} (h : Leaps closed hostless stateless e e') (hi : Inv closed e) (hp : P e) :
    P e' := by
  have hboth : Inv closed e' ∧ P e' := by
    induction h with
    | refl => exact ⟨hi, hp⟩
    | tail _ h ih => exact ⟨(h.course ih.1).inv ih.1, hP _ _ ih.1 h ih.2⟩
  exact hboth.2

theorem Paces.leaps {closed hostless stateless : Prop} {own : Leeway} {e e' : Engine}
    (h : Paces closed own e e') (ho : hostless → ∀ i c p, ¬ own i c p) :
    Leaps closed hostless stateless e e' :=
  Relation.ReflTransGen.mono (fun _ _ => Leap.pace ho) _ _ h

/-! ## 3. Rows of paces among leaps -/

/-- **What is asked of the components of the host**: that they run as leaps, too. -/
def HandlerLeaps (closed : Prop) (handler : Handler) : Prop :=
  ∀ code i component {e₀ e : Engine}, Inv closed e₀ → Leaps closed False False e₀ e →
    Upholds (Leaps closed False False e₀) (fun _ _ => True) (handler code i component) e

section

variable {closed hostless stateless : Prop} {e₀ e : Engine}
  (h : Leaps closed hostless stateless e₀ e)
include h

/-- An activity that is a row of paces goes on along leaps. -/
theorem upholds_leaping {α : Type} {own : Leeway} {Q : α → Engine → Prop} {a : Act α}
    (ho : hostless → ∀ i c p, ¬ own i c p) (ha : Upholds (Paces closed own e) Q a e) :
    Upholds (Leaps closed hostless stateless e₀) Q a e :=
  ha.mono (fun _ hp => h.trans (hp.leaps ho)) fun _ _ _ hq => hq

theorem leaps_paces {e' : Engine} (hp : Paces closed untouched e e') :
    Leaps closed hostless stateless e₀ e' := h.trans (hp.leaps fun _ _ _ _ => id)

theorem leaps_strokes {e' : Engine} (hs : Strokes closed untouched e e') :
    Leaps closed hostless stateless e₀ e' :=
  leaps_paces h hs.paces

theorem leaps_record (event : Event) (hl : event.isLife = false) (ht : event.isTraffic = false)
    (hc : event.isCourse = false) : Leaps closed hostless stateless e₀ (e.record event) :=
  leaps_paces h (paces_record .refl event hl ht hc)

/-- A change of the clock, of the debugger or of what the host answers. -/
theorem leaps_setting (h₀ : Inv closed e₀) {e' : Engine}
    (he : e' = { e with
      debugger := e'.debugger, skipBreakpoint := e'.skipBreakpoint, clock := e'.clock
      host := e'.host })
    (hs : e.Plain → e'.host.Harmless) : Leaps closed hostless stateless e₀ e' := by
  refine h.tail (.setting he fun hc => ?_)
  have hp := (h.inv h₀).plain hc
  rw [he]
  exact ⟨hp.store.globals, hp.store.heap, hs hp⟩

/-- A change of the clock or of the debugger. -/
theorem leaps_debugger (h₀ : Inv closed e₀) (debugger : Option DebuggerMode)
    (skipBreakpoint : Option (InstanceId × Nat)) (clock : Nat) :
    Leaps closed hostless stateless e₀ { e with debugger, skipBreakpoint, clock } :=
  leaps_setting h h₀ rfl fun hp => hp.store.host

end

/-! ## 4. Tasks -/

/-- **One task**, also of a component of the host, is a row of leaps. -/
theorem leaps_runTask {closed : Prop} {e₀ e : Engine} {handler : Handler}
    (hh : HandlerLeaps closed handler) (h₀ : Inv closed e₀) (h : Leaps closed False False e₀ e)
    (t : Task) : Leaps closed False False e₀ (e.runTask handler t) := by
  have hi := h.inv h₀
  rcases runTask_cases hi handler t with hp | ⟨s, c, _, hc, _, he⟩
  · exact h.trans (hp.leaps False.elim)
  have hbegin : Leaps closed False False e₀ (e.beginStep t) := h.tail (.beginStep id t)
  have hexecute : Upholds (Leaps closed False False e₀) (fun _ _ => True)
      (execute handler t.instanceId t.component c) (e.beginStep t) := by
    cases hk : c.kind.isBuiltIn with
    | true =>
      have hstep := upholds_execute handler (hbegin.inv h₀) hc rfl hk
      exact (upholds_leaping hbegin False.elim hstep).mono (fun _ => id) fun _ _ _ _ => trivial
    | false =>
      unfold execute
      cases hkind : c.kind with
      | host code => exact hh code _ _ h₀ hbegin
      | _ =>
        rw [hkind] at hk
        cases hk
  have hafter : Leaps closed False False e₀ (afterStep t.instanceId t.component
      (execute handler t.instanceId t.component c (e.beginStep t))) := by
    have hleft := hexecute.after
    generalize execute handler t.instanceId t.component c (e.beginStep t) = outcome at hleft
    match outcome with
    | .ok .completed _ => exact hleft.tail (.endStep id _ _ false)
    | .ok .suspended _ => exact (hleft.tail (.endStep id _ _ true)).tail (.resume id _ _)
    | .error _ _ => exact hleft.tail (.endStep id _ _ false)
  rw [he]
  exact hafter.trans ((paces_settleOutcome _ _ (hafter.inv h₀)).leaps False.elim)

/-- **What a row of tasks begins with**, and how it goes on after that. -/
inductive Headway (handler : Handler) (count : Nat) (allowance : Option Nat) (report : TickReport)
    (e : Engine) : Prop
  /-- No task has its turn any more. -/
  | rest (report' : TickReport) (hx : report'.executed = report.executed)
      (hd : report'.discarded = report.discarded)
      (hr : runTasks handler (count + 1) allowance report e = (report', e))
  /-- The first task is dropped, because its instance is gone. -/
  | drop {t : Task} {ts : List Task} (hq : e.queue.tasks = t :: ts)
      (hn : e.instance? t.instanceId = none)
      (hr : runTasks handler (count + 1) allowance report e
        = runTasks handler count (allowance.map (· - 1))
          { report with discarded := report.discarded + 1 }
          ((e.takeTask t).record (.discarded t)))
  /-- The debugger holds the first task back. -/
  | hold (t : Task)
      (hr : runTasks handler (count + 1) allowance report e
        = ({ report with paused := true }, (e.debuggerBlocks t).2))
  /-- The first task is run, and the debugger has it that no other follows, or others do. -/
  | run {t : Task} {ts : List Task} (hp : e.stopRequested = false) (hq : e.queue.tasks = t :: ts)
      (hg : t.continuous = true ∨ e.dataReady t.instanceId t.component = true)
      (hr : (((e.debuggerBlocks t).2.takeTask t).runTask handler t).debugger = some .singleStep
          ∧ runTasks handler (count + 1) allowance report e
            = ({ report with executed := report.executed + 1, paused := true },
              { ((e.debuggerBlocks t).2.takeTask t).runTask handler t with
                debugger := some .paused })
        ∨ runTasks handler (count + 1) allowance report e
          = runTasks handler count (allowance.map (· - 1))
            { report with executed := report.executed + 1 }
            (((e.debuggerBlocks t).2.takeTask t).runTask handler t))

section

variable {closed hostless stateless : Prop} {e₀ e : Engine} {handler : Handler}
  (hh : HandlerLeaps closed handler) (h₀ : Inv closed e₀)
  (hd : hostless → e₀.definition.Hostless) (hs : stateless → hostless)
  (h : Leaps closed hostless stateless e₀ e)
include h₀ h

include hh hd hs in
/-- **The turn of the first task** is a row of leaps. -/
theorem leaps_turn {t : Task} {ts : List Task} (hp : e.stopRequested = false)
    (hq : e.queue.tasks = t :: ts) :
    Leaps closed hostless stateless e₀ ((e.takeTask t).runTask handler t) := by
  by_cases hn : hostless
  · refine h.tail (.task ?_ hp hq)
    rw [h.definition h₀]
    exact hd hn
  · obtain rfl : hostless = False := eq_false hn
    obtain rfl : stateless = False := eq_false hs
    exact leaps_runTask hh h₀ (h.tail (.take id hq)) t

/-! ## 5. Ticks -/

theorem leaps_debuggerBlocks (t : Task) :
    Leaps closed hostless stateless e₀ (e.debuggerBlocks t).2 := by
  have hset := leaps_debugger h h₀
  unfold debuggerBlocks
  split
  · exact h
  · exact h
  · exact h
  · dsimp only
    split
    · exact hset e.debugger none e.clock
    · split
      · exact hset (some .paused) _ e.clock
      · exact h

omit h₀ h in
/-- The debugger changes nothing but what it is about to do. -/
theorem debuggerBlocks_snd (e : Engine) (t : Task) :
    (e.debuggerBlocks t).2 = { e with
      debugger := (e.debuggerBlocks t).2.debugger
      skipBreakpoint := (e.debuggerBlocks t).2.skipBreakpoint } := by
  unfold debuggerBlocks
  split
  · rfl
  · rfl
  · rfl
  · dsimp only
    split
    · rfl
    · split <;> rfl

omit h₀ h in
theorem tasks_debuggerBlocks (e : Engine) (t : Task) :
    (e.debuggerBlocks t).2.queue.tasks = e.queue.tasks :=
  congrArg (·.queue.tasks) (debuggerBlocks_snd e t)

omit h₀ h in
theorem stopRequested_debuggerBlocks (e : Engine) (t : Task) :
    (e.debuggerBlocks t).2.stopRequested = e.stopRequested :=
  congrArg (·.stopRequested) (debuggerBlocks_snd e t)

omit h₀ h in
/-- **What a row of tasks begins with.** -/
theorem headway (handler : Handler) (count : Nat) (allowance : Option Nat) (report : TickReport)
    (e : Engine) : Headway handler count allowance report e := by
  cases hstop : e.stopRequested with
  | true => exact .rest report rfl rfl (by simp [runTasks, hstop])
  | false =>
  by_cases hspent : allowance = some 0
  · exact .rest { report with budgetExhausted := true } rfl rfl (by simp [runTasks, hstop, hspent])
  cases hq : e.queue.tasks with
  | nil => exact .rest report rfl rfl (by simp [runTasks, hstop, hspent, hq])
  | cons t ts =>
  cases hlive : e.forest.contains t.instanceId with
  | false =>
    have hnone : e.instance? t.instanceId = none := by
      simpa [Forest.contains, instance?] using hlive
    exact .drop hq hnone (by simp [runTasks, hstop, hspent, hq, hlive])
  | true =>
  cases hready : !t.continuous && !e.dataReady t.instanceId t.component with
  | true =>
    exact .rest { report with stalled := true } rfl rfl
      (by simp [runTasks, hstop, hspent, hq, hlive, hready])
  | false =>
  cases hblock : e.debuggerBlocks t with
  | mk blocks e' =>
  have hstate : (e.debuggerBlocks t).2 = e' := by rw [hblock]
  cases blocks with
  | true =>
    refine .hold t ?_
    rw [hstate]
    simp [runTasks, hstop, hspent, hq, hlive, hready, hblock]
  | false =>
    have hgoes : t.continuous = true ∨ e.dataReady t.instanceId t.component = true := by
      simpa [or_iff_not_imp_left] using hready
    refine .run hstop hq hgoes ?_
    rw [hstate]
    by_cases hmode : ((e'.takeTask t).runTask handler t).debugger = some .singleStep
    · exact Or.inl ⟨hmode, by simp [runTasks, hstop, hspent, hq, hlive, hready, hblock, hmode]⟩
    · exact Or.inr (by simp [runTasks, hstop, hspent, hq, hlive, hready, hblock, hmode])

include hh hd hs in
theorem leaps_runTasks (count : Nat) (allowance : Option Nat) (report : TickReport) :
    Leaps closed hostless stateless e₀ (runTasks handler count allowance report e).2 := by
  induction count generalizing allowance report e with
  | zero => exact h
  | succ count ih =>
    cases headway handler count allowance report e with
    | rest _ _ _ hr =>
      rw [hr]
      exact h
    | drop hq hn hr =>
      rw [hr]
      exact ih (h.tail (.discard hq hn)) _ _
    | hold t hr =>
      rw [hr]
      exact leaps_debuggerBlocks h₀ h t
    | @run t ts hp hq _ hr =>
      have hrun := leaps_turn hh h₀ hd hs (leaps_debuggerBlocks h₀ h t)
        ((stopRequested_debuggerBlocks e t).trans hp)
        ((tasks_debuggerBlocks e t).trans hq)
      rcases hr with ⟨_, hr⟩ | hr
      · rw [hr]
        exact leaps_debugger hrun h₀ (some .paused) _ _
      · rw [hr]
        exact ih hrun _ _

theorem leaps_shutdown : Leaps closed hostless stateless e₀ e.shutdown := by
  have hfree : Paces closed untouched e (e.forest.roots.foldl (fun e root => e.free root) e) :=
    paces_freeAll (h.inv h₀) .refl e.forest.roots
  exact (leaps_paces h hfree).tail (.halt (instance?_freeAll (h.inv h₀)))

theorem leaps_endTick (report : TickReport) :
    Leaps closed hostless stateless e₀ (endTick report e).2 := by
  unfold endTick
  dsimp only
  refine leaps_record ?_ _ rfl rfl rfl
  split
  · exact leaps_shutdown h₀ h
  · exact h

include hh hd hs

/-- **One tick** is a row of leaps. -/
theorem leaps_tick (allowance : Option Nat) :
    Leaps closed hostless stateless e₀ (e.tick handler allowance).2 := by
  unfold tick
  split
  · exact leaps_endTick h₀ (leaps_runTasks hh h₀ hd hs h _ _ _) _
  · exact leaps_endTick h₀ h _

theorem leaps_runUntilIdle (allowance : Option Nat) (maxTicks : Nat) :
    Leaps closed hostless stateless e₀ (runUntilIdle handler allowance maxTicks e).2 := by
  induction maxTicks generalizing e with
  | zero => exact h
  | succ maxTicks ih =>
    unfold runUntilIdle
    split
    · exact h
    · exact ih (leaps_tick hh h₀ hd hs h allowance)

omit h₀ hh hd hs in
theorem upholds_startFlow (flow : Nat) :
    Upholds (Leaps closed hostless stateless e₀) (fun _ _ => True) (startFlow flow) e := by
  unfold startFlow
  have hstart := h.tail .restart
  refine upholds_modify_bind (upholds_leaping hstart (fun _ _ _ _ => id) ?_)
  exact upholds_begin .refl rfl flow

end

end InstrumentFlow.Engine
