import InstrumentFlow.Proofs.Clearance
import InstrumentFlow.Proofs.Readiness
import InstrumentFlow.Proofs.Returns.Home

/-!
# What becomes of calls

A called flow gives back control wherever an End component has its step, and it goes on as long as
anything is left to do in it. So a call returns once if its flow comes to one such step, and more
often if it comes to more of them.

* `Homes` -- between two states every instance goes on to give back control with its End components;
* `homes_called`, `homes_letGo`, `upholds_homes_call` -- calls;
* `upholds_homes_stepFinish`, `homes_runTask` -- ends of called flows, and tasks as a whole;
* `homes_perform`, `homes_move`, `homes_after` -- what the host orders, and runs;
* `not_isCollectible_of_stepped` -- after a step nobody stays in whom nothing is left to do;
* `returns_of_call` -- how often a call returns, and what keeps its flow;
* `not_returns_once` -- a called flow with two End components.
-/

namespace InstrumentFlow.Engine

/-! ## 1. What is kept -/

/-- Every instance that gives back control with its End components goes on to do so. -/
def Homes (d : Definition) (e e' : Engine) : Prop := (∀ i, Homing d i e) → ∀ i, Homing d i e'

section

variable {d : Definition} {e e' : Engine}

theorem Routine.homes (h : Routine e e') : Homes d e e' :=
  fun hhome i => (hhome i).bystands (h.bystands i)

theorem tolerant_homes : Tolerant everyone (Homes d) where
  refl _ := id
  trans h h' := h' ∘ h
  beside hf hl hj := (Routine.tolerant.beside hf hl hj).homes
  record e _ h := (Routine.tolerant.record e h).homes
  modifyInstance e i _ ha hp := (Routine.tolerant.modifyInstance e i ha hp).homes
  setProgress e _ _ ho p := (Routine.tolerant.setProgress e ho p).homes
  noteProgress e _ _ ho := (Routine.tolerant.noteProgress e ho).homes

theorem homes_bury (i : InstanceId) (e : Engine) : Homes d e (bury i e).2 :=
  (Routine.bury i e).homes

end

/-! ## 2. Beginnings -/

section

variable {d : Definition} {closed : Prop} {e : Engine} (hi : Inv closed e) (flow : Nat) (f : Flow)
  {parent : Option (InstanceId × Nat)} {isAction : Bool}
  (hp : ∀ p, parent = some p → e.forest.contains p.1 = true) (ha : isAction = parent.isSome)
include hi hp ha

/-- An instance that begins is another one than all that are there. -/
theorem Bystands.arisen {i : InstanceId} (hne : i ≠ e.nextId flow f parent isAction) :
    Bystands i e (e.arisen flow f parent isAction) := by
  have hbegun : Bystands i e (e.begun flow f parent isAction) := by
    refine ⟨⟨[@Event.created (e.nextId flow f parent isAction) flow _], rfl, fun event hmem => ?_⟩,
      fun s' hs' => ?_⟩
    · rw [List.mem_singleton.mp hmem]
      exact beq_false_of_ne (Ne.symm hne)
    · obtain ⟨heq, _⟩ | ⟨_, s, l, hs, rfl⟩ := Forest.get?_insert_children hi.sound.free
        (rooted_freshInstance flow f hp ha e.heap) hs'
      · exact absurd heq hne
      · exact ⟨s, hs, rfl, rfl, rfl⟩
  have hpinged : Routine (e.begun flow f parent isAction) (e.arisen flow f parent isAction) :=
    Routine.tolerant.pingAll _ _ _
  exact hbegun.trans (hpinged.bystands i)

theorem Newborn.arisen : Newborn (e.nextId flow f parent isAction) flow parent isAction
    (e.arisen flow f parent isAction) := by
  have hbegun : Newborn (e.nextId flow f parent isAction) flow parent isAction
      (e.begun flow f parent isAction) := by
    refine ⟨fun s hs => ?_, flowBegun_created_self _ flow _, fun event hmem => ?_⟩
    · have hnew := Forest.get?_insert_self hi.sound.free
        (rooted_freshInstance flow f hp ha e.heap)
      obtain rfl := Option.some.inj (hnew.symm.trans hs)
      exact ⟨rfl, rfl, rfl⟩
    · have hbirth {found : Reading} :
          (@Event.created (e.nextId flow f parent isAction) flow found).isBirth
            (e.nextId flow f parent isAction) = true := beq_self_eq_true _
      have hsince : since (e.nextId flow f parent isAction)
          (e.begun flow f parent isAction).journal = [] := since_of_birth hbirth _
      rw [hsince] at hmem
      cases hmem
  have hpinged : Routine (e.begun flow f parent isAction) (e.arisen flow f parent isAction) :=
    Routine.tolerant.pingAll _ _ _
  exact hbegun.bystands (hpinged.bystands _)

end

section

variable {d : Definition} {closed : Prop} {e : Engine} (hi : Inv closed e)
include hi

/-- **A flow that nobody called** begins. -/
theorem upholds_homes_create (flow : Nat) :
    Upholds (Homes d e) (fun _ _ => True) (create flow none false) e := by
  unfold Upholds
  rcases create_cases e flow none false with ⟨err, he⟩ | ⟨f, _, hp, he⟩
  · rw [he]
    exact id
  · rw [he]
    refine ⟨fun hhome i => ?_, trivial⟩
    by_cases hne : i = e.nextId flow f none false
    · rw [hne]
      exact (Newborn.arisen hi flow f hp rfl).uncalled
    · exact (hhome i).bystands (.arisen hi flow f hp rfl hne)

/-! ## 3. Calls -/

section

variable (flow : Nat) (f : Flow) {i : InstanceId} {component : Nat}
  (hl : e.forest.contains i = true)
include hl

/-- **A component calls a flow** and waits for it. -/
theorem homes_called : Homes d e ((e.arisen flow f (some (i, component)) true).startAsync
    (some (e.nextId flow f (some (i, component)) true)) i component) := by
  have hp (p : InstanceId × Nat) (h : some (i, component) = some p) :
      e.forest.contains p.1 = true := Option.some.inj h ▸ hl
  intro hhome j
  have hmarked := Routine.tolerant.markAsync ((e.arisen flow f (some (i, component)) true).record
    (.awaited (some (e.nextId flow f (some (i, component)) true)) i component)) i component true
  by_cases hne : j = e.nextId flow f (some (i, component)) true
  · rw [hne]
    exact (Newborn.arisen hi flow f hp rfl).called.bystands (hmarked.bystands _)
  · have hother : (Event.awaited (some (e.nextId flow f (some (i, component)) true)) i
        component).involves j = false := beq_false_of_ne (Ne.symm hne)
    have harisen := Bystands.arisen hi flow f hp rfl hne
    exact (hhome j).bystands ((harisen.trans (.record _ hother)).trans (hmarked.bystands j))

/-- **A called flow in which nothing can run** is let go, and gives back control. -/
theorem homes_letGo {child : InstanceId} (hc : child = e.nextId flow f (some (i, component)) true)
    {e₁ : Engine} (he : e₁ = (e.arisen flow f (some (i, component)) true).startAsync
      (some child) i component) (hi₁ : Inv closed e₁) :
    Homes d e ((e₁.free child).record (.returned child i component)) := by
  have hp (p : InstanceId × Nat) (h : some (i, component) = some p) :
      e.forest.contains p.1 = true := Option.some.inj h ▸ hl
  have hfree : Routine e₁ (e₁.free child) := Routine.tolerant.free Routine.bury child e₁
  intro hhome j
  by_cases hne : j = child
  · have hmarked : Routine ((e.arisen flow f (some (i, component)) true).record
        (.awaited (some child) i component)) e₁ := by
      rw [he]
      exact Routine.tolerant.markAsync _ i component true
    have hnew : Newborn child flow (some (i, component)) true _ :=
      hc ▸ Newborn.arisen hi flow f hp rfl
    rw [hne]
    exact hnew.letGo ((hmarked.trans hfree).bystands child) (free_destroys hi₁ child).one_gone
  · have hother : (Event.returned child i component).involves j = false :=
      beq_false_of_ne (Ne.symm hne)
    have hcalled : Homing d j e₁ := by
      rw [he, hc]
      exact homes_called hi flow f hl hhome j
    exact hcalled.bystands ((hfree.bystands j).trans (.record _ hother))

end

/-- **A call.** -/
theorem upholds_homes_call (i : InstanceId) (component flow : Nat) :
    Upholds (Homes d e) (fun _ _ => True) (call i component flow) e := by
  unfold call
  have hcreate := create_cases e flow (some (i, component)) true
  refine upholds_bind_within (R := fun child e' => ∃ f, e.definition.flows[flow]? = some f
      ∧ e.forest.contains i = true ∧ child = e.nextId flow f (some (i, component)) true
      ∧ e' = e.arisen flow f (some (i, component)) true) (fun child e' hok => ?_)
    (fun err e' herror => ?_) fun child e' hcall => upholds_modify_bind (upholds_get ?_)
  · rcases hcreate with ⟨err, he⟩ | ⟨f, hf, hp, he⟩
    · rw [he] at hok
      cases hok
    · rw [he] at hok
      obtain ⟨rfl, rfl⟩ := EStateM.Result.ok.inj hok
      exact ⟨f, hf, hp _ rfl, rfl, rfl⟩
  · rcases hcreate with ⟨err, he⟩ | ⟨f, hf, hp, he⟩
    · rw [he] at herror
      obtain ⟨_, rfl⟩ := EStateM.Result.error.inj herror
      exact id
    · rw [he] at herror
      cases herror
  obtain ⟨f, hf, hl, rfl, rfl⟩ := hcall
  have hpaces : Paces closed nobody e ((e.arisen flow f (some (i, component)) true).startAsync
      (some (e.nextId flow f (some (i, component)) true)) i component) := .single (.call hf hl)
  split
  · have hback := homes_letGo (d := d) hi flow f hl rfl rfl (hpaces.inv hi)
    refine upholds_modify_bind (upholds_modify_bind ?_)
    exact upholds_bind (tolerant_homes.after (tolerant_homes.maintains_pulse i component) hback)
      fun _ _ h _ => upholds_pure h trivial
  · exact upholds_pure (homes_called hi flow f hl) trivial

theorem upholds_homes_stepCall (i : InstanceId) (index : Nat) (c : Component) :
    Upholds (Homes d e) (fun _ _ => True) (stepCall i index c) e := by
  unfold stepCall
  split
  · exact upholds_throw id
  · exact upholds_bind (upholds_homes_call hi i index _) fun _ _ h _ => upholds_pure h trivial

end

/-! ## 4. Tasks -/

section

variable {d : Definition} {e : Engine} {t : Task} {s : Instance} {c : Component}
  (hs : e.instance? t.instanceId = some s) (hc : d.component? s.flow t.component = some c)
include hs hc

/-- **The step of an End component.** -/
theorem upholds_homes_stepFinish (hk : c.kind = .finish) :
    Upholds (Homes d e) (fun _ _ => True) (stepFinish t.instanceId) (e.beginStep t) := by
  have hlive : (e.beginStep t).instance? t.instanceId = some s := hs
  unfold stepFinish
  refine upholds_get ?_
  rw [hlive]
  dsimp only
  split
  · next p component ha hp =>
    have hback : Homes d e ((e.beginStep t).record (.returned t.instanceId p component)) :=
      fun hhome i => (hhome i).finish hs hc hk ha hp
    have hpulse := tolerant_homes.after (tolerant_homes.maintains_pulse p component) hback
    refine upholds_modify_bind (upholds_bind hpulse fun _ e' h _ => ?_)
    have hend : Homes d e' (e'.endAsync (some t.instanceId) p component) :=
      tolerant_homes.endAsync homes_bury e' _ _ _
    exact upholds_modify_bind (upholds_pure (tolerant_homes.trans h hend) trivial)
  · next hother =>
    have hbegun : Homes d e (e.beginStep t) := fun hhome i =>
      (hhome i).beginStep hs hc (Or.inr fun p ⟨ha, hp⟩ => hother p.1 p.2 ha hp)
    have hasked : Homes d e ((e.beginStep t).record .stopAsked) :=
      tolerant_homes.trans hbegun (tolerant_homes.record _ rfl)
    exact upholds_modify_bind (upholds_pure
      (tolerant_homes.trans hasked (tolerant_homes.beside rfl rfl rfl)) trivial)

/-- **The step of any component.** -/
theorem upholds_homes_execute {closed : Prop} (hi : Inv closed e) (handler : Handler)
    (hh : c.kind.isBuiltIn = true) :
    Upholds (Homes d e) (fun _ _ => True) (execute handler t.instanceId t.component c)
      (e.beginStep t) := by
  have hbegun (hk : c.kind ≠ .finish) : Homes d e (e.beginStep t) :=
    fun hhome i => (hhome i).beginStep hs hc (Or.inl hk)
  cases hk : c.kind with
  | finish =>
    unfold execute
    rw [hk]
    exact upholds_homes_stepFinish hs hc hk
  | callAction =>
    unfold execute
    rw [hk]
    have hcall := upholds_homes_stepCall (d := d) ((touches_beginStep hi t).inv hi) t.instanceId
      t.component c
    exact hcall.mono (fun _ h => h ∘ hbegun (by rw [hk]; nofun)) fun _ _ _ _ => trivial
  | host _ =>
    rw [hk] at hh
    cases hh
  | _ =>
    have hroutine : c.kind.isRoutine = true := by rw [hk]; rfl
    have hstep := routinely_execute handler t.instanceId t.component hroutine (e.beginStep t)
    exact hstep.mono (fun _ h => h.homes ∘ hbegun (by rw [hk]; nofun)) fun _ _ _ _ => trivial

end

/-- **What a state is known to be**: it satisfies the invariant, and it runs this program. -/
structure Underway (d : Definition) (e : Engine) : Prop where
  inv : Inv False e
  definition : e.definition = d

theorem Underway.leaps {d : Definition} {e e' : Engine} (h : Underway d e)
    (hl : Leaps False False False e e') : Underway d e' :=
  ⟨hl.inv h.inv, (hl.definition h.inv).trans h.definition⟩

section

variable {d : Definition} (hh : d.Hostless) {e : Engine} (hd : Underway d e)
include hh hd

/-- **A task.** -/
theorem homes_runTask (handler : Handler) (t : Task) : Homes d e (e.runTask handler t) := by
  unfold runTask
  split
  · exact id
  next s hs =>
  split
  · exact (Routine.tolerant.failFatally e _ _ _).homes
  next c hc =>
  split
  · have hrelease : Homes d e (e.releaseProgress t.instanceId t.component) :=
      tolerant_homes.releaseProgress e rfl
    exact tolerant_homes.trans hrelease (tolerant_homes.tidy homes_bury _ _ _)
  · have hk : e.componentOf? t.instanceId t.component = some c := by
      rw [componentOf?_of_live hs, hc]
      rfl
    have hdc : d.component? s.flow t.component = some c := by
      unfold componentOf? at hk
      rwa [hs, Option.bind_some, hd.definition] at hk
    have hbuiltIn : c.kind.isBuiltIn = true := only_componentOf? (hd.definition ▸ hh) hk
    have hstep := (upholds_homes_execute hs hdc hd.inv handler hbuiltIn).after
    have hsettle := (Routine.settleOutcome t.instanceId t.component
      (execute handler t.instanceId t.component c (e.beginStep t))).homes (d := d)
    exact tolerant_homes.trans (tolerant_homes.trans hstep hsettle)
      (tolerant_homes.tidy homes_bury _ _ _)

/-! ## 5. Runs -/

section

variable {handler : Handler} (hl : HandlerLeaps False handler)
include hl

theorem homes_tick (allowance : Option Nat) : Homes d e (e.tick handler allowance).2 :=
  tolerant_homes.tick Underway.inv Underway.leaps hl (fun hd t => homes_runTask hh hd handler t)
    homes_bury hd allowance

theorem homes_runUntilIdle (allowance : Option Nat) (maxTicks : Nat) :
    Homes d e (runUntilIdle handler allowance maxTicks e).2 :=
  tolerant_homes.runUntilIdle Underway.inv Underway.leaps hl
    (fun hd t => homes_runTask hh hd handler t) homes_bury allowance maxTicks hd

/-- **A command.** -/
theorem homes_perform (command : Command) : Homes d e (perform handler command e).2 := by
  cases hc : command.isRoutine with
  | true => exact (Routine.perform handler hc e).homes
  | false =>
    cases command with
    | startFlow flow =>
      have hrestart : Leaps False False False e { e.record .restarted with
          stopped := false, stopRequested := false, lastError := none } := .single .restart
      have hbegin := upholds_homes_create (d := d) (hrestart.inv hd.inv) flow
      have hroutine : Homes d e { e.record .restarted with
          stopped := false, stopRequested := false, lastError := none } :=
        tolerant_homes.trans (tolerant_homes.record e rfl) (tolerant_homes.beside rfl rfl rfl)
      have hstart : Upholds (Homes d e) (fun _ _ => True) (startFlow flow) e :=
        upholds_modify_bind (hbegin.mono (fun _ h => h ∘ hroutine) fun _ _ _ _ => trivial)
      exact upholds_replyOf hstart
    | tick => exact homes_tick hh hd hl _
    | runUntilIdle maxTicks => exact homes_runUntilIdle hh hd hl _ maxTicks
    | call i component flow => exact upholds_replyOf (upholds_homes_call hd.inv i component flow)
    | _ => cases hc

end

/-- **A move of the host.** -/
theorem homes_move (m : Move) : Homes d e (e.move m) := by
  have hl := handlerLeaps_handler False
  cases m with
  | order o =>
    have hperform := homes_perform hh hd hl o.command
    show Homes d e (performOrder handler o e).2
    rcases performOrder_cases handler o e with he | ⟨_, _, he⟩
    · rwa [he]
    · rw [he]
      exact tolerant_homes.trans hperform (tolerant_homes.beside rfl rfl rfl)
  | tick allowance => exact homes_tick hh hd hl allowance
  | idle allowance maxTicks => exact homes_runUntilIdle hh hd hl allowance maxTicks
  | pass _ | turn _ => exact tolerant_homes.beside rfl rfl rfl
  | serve ledger dispatcher => exact (Routine.request e ledger dispatcher).homes

theorem homes_after (moves : List Move) :
    Homes d e (e.after moves) ∧ Underway d (e.after moves) := by
  induction moves generalizing e with
  | nil => exact ⟨id, hd⟩
  | cons m moves ih =>
    have hmove : Leaps False False False e (e.move m) :=
      leaps_move hd.inv False.elim id .refl m False.elim False.elim
    obtain ⟨hrest, hafter⟩ := ih (hd.leaps hmove)
    exact ⟨tolerant_homes.trans (homes_move hh hd m) hrest, hafter⟩

end

/-! ## 6. What keeps a called instance -/

/-- **After each task** its instance is gone if nothing is left to do in it. -/
theorem not_isCollectible_tidy {closed : Prop} {e : Engine} (hi : Inv closed e) (i : InstanceId)
    (component : Nat) : (e.tidy i component).isCollectible i = false := by
  have hsettled : Paces closed nobody e ((e.resetSequenceInputs i component).record
      (.settled i component)) :=
    (strokes_resetSequenceInputs .refl i component).paces.tail
      (.settle (pulsesGone_resetSequenceInputs e i component))
  unfold tidy collect
  split
  · have hgone := (free_destroys (hsettled.inv hi) i).one_gone
    exact eq_false_of_ne_true fun hc => live_of_isCollectible hc hgone
  · next hc => exact eq_false_of_ne_true hc

/-- **After each step** as well. -/
theorem not_isCollectible_of_stepped {closed : Prop} {e : Engine} (handler : Handler)
    (hi : Inv closed e) (hh : e.definition.Hostless) {allowance : Option Nat} {report : TickReport}
    {t : Task} {news : List Event}
    (hj : (runTasks handler 1 allowance report e).2.journal = news ++ e.journal)
    (ht : .stepped t ∈ news) :
    (runTasks handler 1 allowance report e).2.isCollectible t.instanceId = false := by
  obtain ⟨_, _, ⟨s, c, hs, hf, hc⟩, debugger, skipBreakpoint, debugger', hit, hrun⟩ :=
    turn_of_stepped handler hi hh hj ht
  rw [hrun]
  generalize he : ({ e with debugger, skipBreakpoint } : Engine).takeTask t = e₁ at hit
  have hs₁ : e₁.instance? t.instanceId = some s := he ▸ hs
  have hc₁ : e₁.componentOf? t.instanceId t.component = some c := he ▸ hc
  have hh₁ : e₁.definition.Hostless := he ▸ hh
  have hib := (touches_beginStep hit t).inv hit
  have his := (upholds_execute handler hib hc₁ rfl (only_componentOf? hh₁ hc₁)).after.inv hib
  have hia := (touches_afterStep t.instanceId t.component his).inv his
  have hin := (strokes_settleOutcome t.instanceId t.component hia).inv hia
  show (e₁.runTask handler t).isCollectible t.instanceId = false
  rw [runTask_of_live handler hs₁ hf hc₁]
  exact not_isCollectible_tidy hin _ _

/-! ## 7. Every run -/

/-- **How often a call returns.** In every run of flows without components of the host, between any
    two steps: an instance gives back control to none but the component that waits for it. A called
    one gave back control as often as End components of it had a step; or its call let it go before
    its first step, as nothing could run in it, and then once. After each of its steps, of an End
    component or not, it is gone unless a component of it waits or it has work left. -/
theorem returns_of_call {d : Definition} {config : Config} {dispatcher : Dispatcher} {host : Host}
    {e₀ : Engine} (hb : build d config dispatcher host = .ok e₀) (hh : d.Hostless)
    (moves : List Move) (count : Nat) (allowance : Option Nat) (report : TickReport) {e : Engine}
    (he : e = (runTasks handler count allowance report (e₀.after moves)).2) (i : InstanceId) :
    (∀ p c, .returned i p c ∈ since i e.journal → .awaited (some i) p c ∈ since i e.journal)
    ∧ (∀ p c, .awaited (some i) p c ∈ since i e.journal →
      returns i e.journal = endings d i e.journal
      ∨ e.instance? i = none ∧ returns i e.journal = 1 ∧ stepsOf i e.journal = 0)
    ∧ ∀ allowance' report' e' news component continuous,
      e' = (runTasks handler 1 allowance' report' e).2 → e'.journal = news ++ e.journal →
      .stepped ⟨i, component, continuous⟩ ∈ news →
      ∀ s, e'.instance? i = some s → s.isAction = true → (∃ c, e'.Marked i c) ∨ e'.Works i := by
  have hbuilt : Underway d e₀ :=
    ⟨inv_build hb False.elim, by rw [(build_eq_ok_iff.mp hb).2]; rfl⟩
  have hstart (j : InstanceId) : Homing d j e₀ := by
    rw [(build_eq_ok_iff.mp hb).2]
    refine .of_empty (fun s hs => ?_) rfl
    exact nomatch (instance?_built d config dispatcher host j).symm.trans hs
  obtain ⟨hafter, hmoved⟩ := homes_after hh hbuilt moves
  have hl := handlerLeaps_handler False
  have hruns : Homes d (e₀.after moves) e := he ▸ tolerant_homes.runTasks Underway.inv
    Underway.leaps hl (fun hd t => homes_runTask hh hd handler t) count hmoved allowance report
  have hhome := hruns (hafter hstart) i
  have hd : Underway d e := by
    rw [he]
    exact hmoved.leaps (leaps_runTasks hl hmoved.inv False.elim id .refl count allowance report)
  refine ⟨hhome.home, hhome.count, ?_⟩
  rintro allowance' report' _ news component continuous rfl hj ht s hs ha
  have hi' : Inv False (runTasks handler 1 allowance' report' e).2 :=
    (hd.leaps (leaps_runTasks hl hd.inv False.elim id .refl 1 allowance' report')).inv
  have hhostless : e.definition.Hostless := hd.definition ▸ hh
  exact marked_or_works hi' hs ha
    (not_isCollectible_of_stepped handler hd.inv hhostless hj ht)

/-- A flow that calls another one and logs a text when it has control back. The other one starts
    with two pulses, each to an End component of its own. -/
def fanningDefinition : Definition :=
  { constants := [.undefined, .null, .string "after"]
    flows :=
      [{ name := "main", inputFlags := [1, 1]
         components :=
          [{ kind := .start, outputs := [{ isSequence := true, connections := [⟨1, 0, true⟩] }] },
           { kind := .callAction, inputs := [0], payload := [1, 0]
             outputs := [{ isSequence := true, connections := [⟨2, 1, true⟩] }] },
           { kind := .log, inputs := [1], properties := [{ instructions := [2, 0, 0, 224] }] }] },
       { name := "inner", inputFlags := [1, 1]
         components :=
          [{ kind := .start
             outputs := [{ isSequence := true, connections := [⟨1, 0, true⟩, ⟨2, 1, true⟩] }] },
           { kind := .finish, inputs := [0] }, { kind := .finish, inputs := [1] }] }] }

/-- The flow is started, it calls the other one, and that one starts. -/
def fanningMoves : List Move := [.order ⟨.startFlow 0, none⟩, .tick none, .tick none, .tick none]

/-- The program after some of the steps of the next tick. -/
def fanning (count : Nat) : Engine :=
  (runTasks handler count none {} ((built fanningDefinition {} .absent {}).after fanningMoves)).2

/-- The first End component gives back control, and the second one does so again. Both steps are of
    the same called instance. -/
theorem fanning_spec :
    fanningDefinition.Hostless
    ∧ ((since ⟨1, 0⟩ (fanning 2).journal).any
      fun event => event.called? == some (⟨1, 0⟩, ⟨0, 0⟩, 1)) = true
    ∧ endings fanningDefinition ⟨1, 0⟩ (fanning 2).journal = 2
    ∧ ((fanning 1).instance? ⟨1, 0⟩).map Instance.isAction = some true
    ∧ ((fanning 0).journal.any
      fun event => event.stepped? == some ⟨⟨1, 0⟩, 1, false⟩) = false
    ∧ ((fanning 1).journal.any
      fun event => event.stepped? == some ⟨⟨1, 0⟩, 1, false⟩) = true := by
  decide +kernel

theorem mem_awaited_fanning :
    .awaited (some ⟨1, 0⟩) ⟨0, 0⟩ 1 ∈ since ⟨1, 0⟩ (fanning 2).journal := by
  obtain ⟨_, hcalled, _⟩ := fanning_spec
  obtain ⟨event, hmem, he⟩ := List.any_eq_true.mp hcalled
  exact Event.called?_eq_some (eq_of_beq he) ▸ hmem

/-- The call returns twice, and after the first time the called flow has work left. -/
theorem returns_of_call_fanning :
    build fanningDefinition {} .absent {} = .ok (built fanningDefinition {} .absent {})
    ∧ fanningDefinition.Hostless
    ∧ .awaited (some ⟨1, 0⟩) ⟨0, 0⟩ 1 ∈ since ⟨1, 0⟩ (fanning 2).journal
    ∧ returns ⟨1, 0⟩ (fanning 2).journal = 2
    ∧ ∃ news, (fanning 1).journal = news ++ (fanning 0).journal
      ∧ .stepped ⟨⟨1, 0⟩, 1, false⟩ ∈ news
      ∧ ((∃ c, (fanning 1).Marked ⟨1, 0⟩ c) ∨ (fanning 1).Works ⟨1, 0⟩) := by
  have hb : build fanningDefinition {} .absent {}
      = .ok (built fanningDefinition {} .absent {}) := rfl
  obtain ⟨hh, _, hendings, hlive, hbefore, hafter⟩ := fanning_spec
  have hawaited := mem_awaited_fanning
  obtain ⟨_, hcount, _⟩ := returns_of_call hb hh fanningMoves 2 none {} (e := fanning 2) rfl ⟨1, 0⟩
  have hreturns : returns ⟨1, 0⟩ (fanning 2).journal = 2 := by
    rcases hcount _ _ hawaited with heq | ⟨_, _, hnone⟩
    · exact heq.trans hendings
    · exact absurd (hendings ▸ endings_le_stepsOf fanningDefinition ⟨1, 0⟩ (fanning 2).journal)
        (by rw [hnone]; decide)
  have hzero : fanning 0 = (built fanningDefinition {} .absent {}).after fanningMoves := rfl
  have hi : Inv False (fanning 0) := hzero ▸ inv_after (inv_build hb False.elim) _ False.elim
  obtain ⟨news, hj, ht⟩ := exists_stepped hi hbefore hafter
  obtain ⟨_, _, hkept⟩ := returns_of_call hb hh fanningMoves 0 none {} (e := fanning 0) rfl ⟨1, 0⟩
  obtain ⟨s, hs, ha⟩ := Option.map_eq_some_iff.mp hlive
  have hleft := hkept none {} (fanning 1) news 1 false rfl hj ht s hs ha
  exact ⟨hb, hh, hawaited, hreturns, news, hj, ht, hleft⟩

/-- **A call returns more than once**, and the called flow goes on after the step of an End
    component. -/
theorem not_returns_once :
    (¬ ∀ (d : Definition) (e₀ e : Engine) (moves : List Move) (count : Nat),
      build d {} .absent {} = .ok e₀ → d.Hostless →
      e = (runTasks handler count none {} (e₀.after moves)).2 → ∀ i p c,
      .awaited (some i) p c ∈ since i e.journal → returns i e.journal ≤ 1)
    ∧ ¬ ∀ (d : Definition) (e₀ e : Engine) (moves : List Move) (count : Nat),
      build d {} .absent {} = .ok e₀ → d.Hostless →
      e = (runTasks handler count none {} (e₀.after moves)).2 → ∀ i p c,
      .awaited (some i) p c ∈ since i e.journal → ∀ k,
      ((since i e.journal)[k]?).any (Event.isEnding d (flowBegun e.journal i) i) = true →
      ((since i e.journal).take k).countP (Event.isStepOf i) = 0 := by
  have hb : build fanningDefinition {} .absent {}
      = .ok (built fanningDefinition {} .absent {}) := rfl
  obtain ⟨hh, _⟩ := fanning_spec
  refine ⟨fun h => ?_, fun h => ?_⟩
  · have honce := h fanningDefinition _ (fanning 2) fanningMoves 2 hb hh rfl _ _ _
      mem_awaited_fanning
    exact absurd honce (by decide +kernel)
  · have hlast := h fanningDefinition _ (fanning 2) fanningMoves 2 hb hh rfl _ _ _
      mem_awaited_fanning 23 (by decide +kernel)
    exact absurd hlast (by decide +kernel)

end InstrumentFlow.Engine
