import InstrumentFlow.Proofs.Lasting.Unmoved
import InstrumentFlow.Proofs.Suspension

/-!
# What lasts from step to step

What a component knows by its own past holds between all steps of a run if it holds when an instance
begins, as long as the component is left alone, and after each of its own turns.

* `HoldsBut` -- it holds of all components but one;
* `Steady` -- what else holds between steps;
* `closing` -- the state after a step, before its error goes on its way;
* `unmoved_turn`, `Leaps.unmoved` -- what leaves a component alone;
* `Due`, `Lasting` -- the turn of a component, and what must be known of it;
* `Lasting.paces`, `Lasting.raise`, `Lasting.turn` -- it holds after paces, errors and turns;
* `Lasting.leap`, `Lasting.between` -- it holds between the steps of every run.
-/

namespace InstrumentFlow.Engine

/-! ## 1. Between steps -/

/-- `P` holds of all components of live instances, but for the exempt one. -/
def HoldsBut (exempt : Option (InstanceId × Nat)) (P : Engine → InstanceId → Nat → Prop)
    (e : Engine) : Prop :=
  ∀ i c, exempt ≠ some (i, c) → e.instance? i ≠ none → P e i c

theorem ne_pair {i j : InstanceId} {c k : Nat} (hne : some (i, c) ≠ some (j, k)) :
    ¬ (i = j ∧ c = k) := by
  rintro ⟨rfl, rfl⟩
  exact hne rfl

theorem HoldsBut.but {P : Engine → InstanceId → Nat → Prop} {e : Engine} (h : HoldsBut none P e)
    (x : Option (InstanceId × Nat)) : HoldsBut x P e :=
  fun i c _ hl => h i c (Option.some_ne_none (i, c)).symm hl

theorem HoldsBut.close {P : Engine → InstanceId → Nat → Prop} {e : Engine} {i : InstanceId}
    {c : Nat} (h : HoldsBut (some (i, c)) P e) (hp : e.instance? i ≠ none → P e i c) :
    HoldsBut none P e := by
  intro j k _ hl
  by_cases hjk : some (i, c) = some (j, k)
  · obtain ⟨rfl, rfl⟩ := Prod.mk.inj (Option.some.inj hjk)
    exact hp hl
  · exact h j k hjk hl

/-- **Between steps** no step is running, progress is in order, every queued task has its instance,
    and after a stop no instance is left. -/
structure Steady (closed : Prop) (e : Engine) : Prop where
  inv : Inv closed e
  rest : e.Rest
  live : e.AllLive
  gone : e.stopped = true → ∀ i, e.instance? i = none

section

variable {closed : Prop} {own : Leeway} {e e' : Engine}

/-- The run has not stopped when the turn of a task comes. -/
theorem Steady.proceeds (h : Steady closed e) {t : Task} {ts : List Task}
    (hq : e.queue.tasks = t :: ts) : e.stopped = false := by
  cases hs : e.stopped with
  | false => rfl
  | true => exact absurd (h.gone hs t.instanceId) (h.live t (hq ▸ List.mem_cons_self))

theorem Pace.gone (h : Pace closed own e e')
    (hg : e.stopped = true → ∀ i, e.instance? i = none) (hs : e'.stopped = true) (i : InstanceId) :
    e'.instance? i = none := by
  have hgone := hg (h.frame.stopped ▸ hs)
  have hmark {event : Event} (j : InstanceId) (component : Nat) (waits : Bool) :
      ((e.record event).markAsync j component waits).instance? i = none := by
    rw [instance?_markAsync]
    split
    · rw [show (e.record event).instance? j = none from hgone j]
      rfl
    · exact hgone i
  cases h with
  | stroke h => exact h.calm.none_iff.mpr (hgone i)
  | await j component => exact hmark j component true
  | release child j component => exact hmark j component false
  | begin _ hn =>
    rw [(SameFrame.arisen e _ _ _ _).stopped, hn] at hs
    cases hs
  | @call flow f j component _ hl =>
    unfold Forest.contains at hl
    rw [show e.forest.get? j = none from hgone j] at hl
    cases hl
  | destroy h => exact h.wanes.none_of_none (hgone i)
  | settle _ | stop => exact hgone i

end

/-! ## 2. Steps -/

/-- The state after a step, before its error goes on its way: a component that failed has lost its
    progress. -/
def closing (i : InstanceId) (component : Nat) (outcome : EStateM.Result FlowError Engine Step) :
    Engine :=
  match outcome with
  | .error _ e => (e.endStep i component false).releaseProgress i component
  | outcome => afterStep i component outcome

/-- After that only an error goes on its way. -/
theorem settleOutcome_cases (i : InstanceId) (component : Nat)
    (outcome : EStateM.Result FlowError Engine Step) :
    settleOutcome i component outcome = closing i component outcome
    ∨ ∃ message, settleOutcome i component outcome
      = (closing i component outcome).raiseError i component message := by
  match outcome with
  | .ok .completed _ => exact Or.inl rfl
  | .ok .suspended _ => exact Or.inl rfl
  | .error err _ => exact Or.inr ⟨err.message, rfl⟩

theorem strokes_closing {closed : Prop} (i : InstanceId) (component : Nat)
    (outcome : EStateM.Result FlowError Engine Step) :
    Strokes closed (alone i component) (afterStep i component outcome)
      (closing i component outcome) := by
  match outcome with
  | .ok .completed _ => exact .refl
  | .ok .suspended _ => exact .refl
  | .error _ e =>
    have hrelease : Strokes closed (alone i component) (e.endStep i component false)
        ((e.endStep i component false).releaseProgress i component) :=
      strokes_releaseProgress .refl ⟨rfl, rfl⟩
    exact hrelease

section

variable {i j : InstanceId} {c k : Nat}

/-- The turn of a task is the business of its component only. -/
theorem unmoved_takeTask {e : Engine} {t : Task} {ts : List Task} (hq : e.queue.tasks = t :: ts)
    (hne : ¬ (t.instanceId = j ∧ t.component = k)) (hl : e.instance? j ≠ none) :
    Unmoved j k e (e.takeTask t) := by
  obtain ⟨s, hs⟩ := Option.ne_none_iff_exists'.mp hl
  refine ⟨rfl, ⟨s, s, hs, hs, .refl k s⟩, .record e rfl, fun b hb => Or.inl ?_, fun hb => ?_⟩
  · rw [hq] at hb
    rcases List.mem_cons.mp hb with rfl | hb
    · exact absurd ⟨rfl, rfl⟩ hne
    · show _ ∈ e.queue.tasks.tail
      rwa [hq]
  · exact List.mem_of_mem_tail hb

theorem unmoved_beginStep {e : Engine} {t : Task}
    (hne : ¬ (t.instanceId = j ∧ t.component = k)) (hl : e.instance? j ≠ none) :
    Unmoved j k e (e.beginStep t) := by
  refine .of_eq hl rfl rfl rfl ⟨[.stepped t], rfl, fun event he => ?_⟩
  rw [List.mem_singleton.mp he]
  exact decide_eq_false hne

theorem unmoved_endStep {e : Engine} (hne : ¬ (i = j ∧ c = k)) (hl : e.instance? j ≠ none)
    (midway : Bool) : Unmoved j k e (e.endStep i c midway) := by
  refine .of_eq hl rfl rfl rfl ⟨[.ended i c midway], rfl, fun event he => ?_⟩
  rw [List.mem_singleton.mp he]
  exact decide_eq_false hne

theorem unmoved_continueLater {e : Engine} (hne : ¬ (i = j ∧ c = k)) (hl : e.instance? j ≠ none) :
    Unmoved j k e (e.continueLater i c) := by
  have hown (p : Option Progress) : ¬ alone i c j k p := fun h => hne ⟨h.1.symm, h.2.symm⟩
  rcases continueLater_cases e i c with ⟨queue, hq, he⟩ | ⟨hq, _⟩
  · rw [he]
    obtain ⟨s, hs⟩ := Option.ne_none_iff_exists'.mp hl
    refine ⟨rfl, ⟨s, s, hs, hs, .refl k s⟩, .record _ rfl, fun b hb => Or.inl ?_, fun hb => ?_⟩
    · show _ ∈ queue.tasks
      rw [tasks_of_push hq]
      exact List.mem_append_left _ hb
    · change _ ∈ queue.tasks at hb
      rw [tasks_of_push hq] at hb
      rcases List.mem_append.mp hb with hb | hb
      · exact hb
      · obtain ⟨rfl, rfl, _⟩ := Task.mk.inj (List.mem_singleton.mp hb)
        exact absurd ⟨rfl, rfl⟩ hne
  · have hrefuse : Unmoved j k e (e.record (.refused ⟨i, c, true⟩)) :=
      .of_eq hl rfl rfl rfl (.record e rfl)
    have hrest : Strokes False (alone i c) _ (e.continueLater i c) :=
      strokes_continueLater hq ⟨rfl, rfl⟩
    exact hrefuse.trans (hrest.unmoved hown hl)

/-- The end of a step is the business of its component only. -/
theorem unmoved_closing {outcome : EStateM.Result FlowError Engine Step}
    (hne : ¬ (i = j ∧ c = k)) (hl : (stateAfter outcome).instance? j ≠ none) :
    Unmoved j k (stateAfter outcome) (closing i c outcome) := by
  have hown (p : Option Progress) : ¬ alone i c j k p := fun h => hne ⟨h.1.symm, h.2.symm⟩
  match outcome with
  | .ok .completed _ => exact unmoved_endStep hne hl false
  | .ok .suspended e =>
    have hend := unmoved_endStep (e := e) hne hl true
    exact hend.trans (unmoved_continueLater hne hend.live')
  | .error _ e =>
    have hend := unmoved_endStep (e := e) hne hl false
    have hrelease : Strokes False (alone i c) (e.endStep i c false)
        ((e.endStep i c false).releaseProgress i c) :=
      strokes_releaseProgress .refl ⟨rfl, rfl⟩
    exact hend.trans (hrelease.unmoved hown hend.live')

end

/-! ## 3. Components that are left alone -/

section

variable {i j : InstanceId} {c k : Nat} {closed : Prop} {e e' : Engine}

/-- An error that comes to others is their business only. -/
theorem unmoved_raiseError (hi : Inv closed e) {message : String}
    (hk : ¬ (e.raiseError i c message).catches j k) (hl : e.instance? j ≠ none) :
    Unmoved j k e (e.raiseError i c message) := by
  have hkind := kindOf?_calm (strokes_raised hi i c message).calm j k
  have hstrokes : Strokes closed (fun j k _ => e.catches j k) e (e.raiseError i c message) :=
    strokes_raiseError hi .refl (fun _ _ => id) i c
  exact hstrokes.unmoved (fun _ hcatches => hk (hkind.trans hcatches)) hl

/-- A component is left alone by a turn in which no step is run because its instance has failed. -/
theorem unmoved_failed {t : Task} {ts : List Task} (hq : e.queue.tasks = t :: ts)
    (hs : Strokes closed (alone t.instanceId t.component) (e.takeTask t) e')
    (hidles : Idles (e.takeTask t) e') (hqueue : e'.queue = (e.takeTask t).queue)
    (hf : e'.HasFailed t.instanceId) (hl : e.instance? j ≠ none) : Unmoved j k e e' := by
  by_cases hown : t.instanceId = j ∧ t.component = k
  · obtain ⟨rfl, rfl⟩ := hown
    obtain ⟨s', hs', hfail⟩ := hf
    obtain ⟨s, hs₀, hframe⟩ := hs.calm.back hs'
    have hadds : Idles e e' := (Adds.record e rfl).trans hidles
    refine .of_failed hs.calm.definition hs₀ hs' (Instance.flow_of_frame hframe) hfail
      (hadds.mono fun _ => Event.isBusiness_of_concerns) fun hb => ?_
    rw [hqueue] at hb
    exact List.mem_of_mem_tail hb
  · have htake := unmoved_takeTask hq hown hl
    exact htake.trans (hs.unmoved (fun _ ho => hown ⟨ho.1.symm, ho.2.symm⟩) htake.live')

/-- Tidying up is no business of anybody who is still there. -/
theorem unmoved_tidy {e₀ : Engine} (hi : Inv closed e) (hj : e₀.journal <:+ e.journal)
    (ha : Adds (Event.concerns j k) e₀ (e.tidy i c)) (hl : (e.tidy i c).instance? j ≠ none) :
    Unmoved j k e (e.tidy i c) := by
  have htidy : Paces closed untouched e (e.tidy i c) := paces_tidy hi .refl i c
  have hlast := ((htidy.course hi).changes hi).journal
  exact htidy.unmoved hi (fun _ => id) (ha.cut hj hlast).2 hl

/-- What follows from the outcome of a step is a course. -/
theorem course_settleOutcome (i : InstanceId) (c : Nat)
    {outcome : EStateM.Result FlowError Engine Step} (hi : Inv closed (stateAfter outcome)) :
    Course closed (stateAfter outcome) ((settleOutcome i c outcome).tidy i c) := by
  have hafter : Touches closed (stateAfter outcome) (afterStep i c outcome) :=
    touches_afterStep i c hi
  have hia := hafter.inv hi
  exact hafter.course.trans ((paces_settleOutcome i c hia).course hia)

/-- What follows from the outcome of a step is the business of its component only, as long as no
    error comes to another one. -/
theorem unmoved_settled {outcome : EStateM.Result FlowError Engine Step}
    (hi : Inv closed (stateAfter outcome)) (hne : ¬ (i = j ∧ c = k))
    (ha : Adds (Event.concerns j k) (stateAfter outcome) ((settleOutcome i c outcome).tidy i c))
    (hk : ¬ ((settleOutcome i c outcome).tidy i c).catches j k)
    (hl : ((settleOutcome i c outcome).tidy i c).instance? j ≠ none) :
    Unmoved j k (stateAfter outcome) ((settleOutcome i c outcome).tidy i c) := by
  have hafter : Touches closed (stateAfter outcome) (afterStep i c outcome) :=
    touches_afterStep i c hi
  have hia := hafter.inv hi
  have hclose : Strokes closed (alone i c) (afterStep i c outcome) (closing i c outcome) :=
    strokes_closing i c outcome
  have hsettle : Strokes closed anybody (afterStep i c outcome) (settleOutcome i c outcome) :=
    strokes_settleOutcome i c hia
  have hgoes : Changes closed (stateAfter outcome) (settleOutcome i c outcome) :=
    hafter.changes.trans ((hsettle.paces.course hia).changes hia)
  have hdone := unmoved_tidy (hsettle.inv hia) hgoes.journal ha hl
  -- up to then nobody begins and nobody ends
  have hl₀ : (stateAfter outcome).instance? j ≠ none :=
    fun hn => hdone.live ((hafter.calm.trans hsettle.calm).none_iff.mpr hn)
  have hclosing := unmoved_closing hne hl₀
  refine .trans ?_ hdone
  have hcatch : ¬ (settleOutcome i c outcome).catches j k :=
    fun h => hk (hdone.kindOf?.trans h)
  rcases settleOutcome_cases i c outcome with hs | ⟨message, hs⟩
  · rw [hs]
    exact hclosing
  · rw [hs] at hcatch ⊢
    exact hclosing.trans (unmoved_raiseError (hclose.inv hia) hcatch hclosing.live')

/-- **A step that is no business of a component** is that of another one, and leaves it alone. -/
theorem unmoved_ran (handler : Handler) (hi : Inv closed e) {t : Task} {component : Component}
    (hc : e.componentOf? t.instanceId t.component = some component)
    (hb : component.kind.isBuiltIn = true)
    (ha : Adds (Event.concerns j k) e
      ((e.runStep handler t component).tidy t.instanceId t.component))
    (hk : ¬ ((e.runStep handler t component).tidy t.instanceId t.component).catches j k)
    (hl : ((e.runStep handler t component).tidy t.instanceId t.component).instance? j ≠ none) :
    ¬ (t.instanceId = j ∧ t.component = k)
    ∧ Unmoved j k e ((e.runStep handler t component).tidy t.instanceId t.component) := by
  have hbegin : Touches closed e (e.beginStep t) := touches_beginStep hi t
  have hib := hbegin.inv hi
  have hstep := (upholds_executeAlone handler hib hb hc rfl).after
  unfold runStep at ha hk hl ⊢
  generalize execute handler t.instanceId t.component component (e.beginStep t) = outcome
    at hstep ha hk hl ⊢
  have his := hstep.inv hib
  have hduring : Changes closed (e.beginStep t) (stateAfter outcome) :=
    (hstep.course hib).changes hib
  have hthen : Changes closed (stateAfter outcome)
      ((settleOutcome t.instanceId t.component outcome).tidy t.instanceId t.component) :=
    (course_settleOutcome t.instanceId t.component his).changes his
  obtain ⟨hfirst, hrest⟩ :=
    ha.cut hbegin.changes.journal (Changes.journal (hduring.trans hthen))
  have hne : ¬ (t.instanceId = j ∧ t.component = k) := of_decide_eq_false (hfirst.told rfl)
  obtain ⟨hsecond, hthird⟩ := hrest.cut hduring.journal hthen.journal
  have hls : (stateAfter outcome).instance? j ≠ none := hthen.lived his hthird hl
  have hl₀ : e.instance? j ≠ none := hduring.lived hib hsecond hls
  have hstepped := hstep.unmoved hib (fun _ ho => hne ⟨ho.1.symm, ho.2.symm⟩) hsecond hls
  exact ⟨hne,
    ((unmoved_beginStep hne hl₀).trans hstepped).trans (unmoved_settled his hne hthird hk hl)⟩

/-- **So does a turn.** -/
theorem unmoved_turn (handler : Handler) (hi : Inv closed e) (hh : e.definition.Hostless)
    {t : Task} {ts : List Task} (hq : e.queue.tasks = t :: ts)
    (ha : Adds (Event.concerns j k) e ((e.takeTask t).runTask handler t))
    (hk : ¬ ((e.takeTask t).runTask handler t).catches j k)
    (hl : ((e.takeTask t).runTask handler t).instance? j ≠ none) :
    Unmoved j k e ((e.takeTask t).runTask handler t) := by
  have htake : Touches closed e (e.takeTask t) := touches_takeTask t
  have hit := htake.inv hi
  have hrun : Changes closed (e.takeTask t) ((e.takeTask t).runTask handler t) :=
    (course_runTask hit hh handler t).changes hit
  have hafter := (ha.cut htake.changes.journal hrun.journal).2
  have hl₀ : e.instance? j ≠ none := hrun.lived hit hafter hl
  generalize he : (e.takeTask t).runTask handler t = e' at ha hk hl hafter ⊢
  unfold runTask at he
  split at he
  · next hn =>
    subst he
    exact unmoved_takeTask hq (fun hown => hl (hown.1 ▸ hn)) hl₀
  next s hs =>
  have hlive : (e.takeTask t).instance? t.instanceId ≠ none := hs ▸ Option.some_ne_none s
  split at he
  · next err _ =>
    subst he
    have hfatal : Strokes closed (alone t.instanceId t.component) (e.takeTask t) _ :=
      .single (.fatal t.instanceId t.component err.message)
    exact unmoved_failed hq hfatal (.failFatally _ _ _ _) rfl (hasFailed_failFatally hlive _ _) hl₀
  next component hc =>
  split at he
  · next hf =>
    have hrelease : Strokes closed (alone t.instanceId t.component) (e.takeTask t)
        ((e.takeTask t).releaseProgress t.instanceId t.component) :=
      strokes_releaseProgress .refl ⟨rfl, rfl⟩
    have hreleased : Unmoved j k e ((e.takeTask t).releaseProgress t.instanceId t.component) :=
      unmoved_failed hq hrelease (.releaseProgress _ _ _) (queue_releaseProgress _ _ _)
        (StaysFailed.releaseProgress _ _ _ _ ⟨s, hs, hf⟩) hl₀
    have hgoes : Changes closed (e.takeTask t) _ := (hrelease.paces.course hit).changes hit
    subst he
    exact hreleased.trans (unmoved_tidy (hrelease.inv hit) hgoes.journal hafter hl)
  · subst he
    have hk' : (e.takeTask t).componentOf? t.instanceId t.component = some component := by
      rw [componentOf?_of_live hs]
      exact congrArg Except.toOption hc
    obtain ⟨hne, hran⟩ := unmoved_ran handler hit hk' (only_componentOf? hh hk') hafter hk hl
    exact (unmoved_takeTask hq hne hl₀).trans hran

/-- **A leap that is no business of a component** leaves it alone, where the flows have no
    components of the host and the host keeps no progress. -/
theorem Leap.unmoved (h : Leap closed True True e e') (hi : Inv closed e)
    (ha : Adds (Event.concerns j k) e e') (hk : ¬ e'.catches j k) (hl : e'.instance? j ≠ none) :
    Unmoved j k e e' := by
  have hl₀ : e.instance? j ≠ none := Changes.lived ((h.course hi).changes hi) hi ha hl
  cases h with
  | pace ho h => exact h.unmoved hi (ho trivial j k) hl₀ hl
  | raise i component message => exact unmoved_raiseError hi hk hl₀
  | task hh _ hq => exact unmoved_turn _ hi hh hq ha hk hl
  | @discard t ts hq hn =>
    have hne : ¬ (t.instanceId = j ∧ t.component = k) := fun hown => hl₀ (hown.1 ▸ hn)
    have htake := unmoved_takeTask hq hne hl₀
    exact htake.trans (.of_eq htake.live' rfl rfl rfl (.record _ rfl))
  | restart => exact .of_eq hl₀ rfl rfl rfl (.record e rfl)
  | halt hgone => exact absurd (hgone j) hl₀
  | setting he _ =>
    refine .of_eq hl₀ ?_ ?_ ?_ ha
    all_goals rw [he]
  | take hn _ | beginStep hn _ | endStep hn _ _ _ | resume hn _ _ | keep hn _ _ _ =>
    exact absurd trivial hn

/-- **So do leaps in a row.** -/
theorem Leaps.unmoved (h : Leaps closed True True e e') (hi : Inv closed e)
    (ha : Adds (Event.concerns j k) e e') (hk : ¬ e'.catches j k) (hl : e'.instance? j ≠ none) :
    Unmoved j k e e' := by
  induction h with
  | refl => exact .refl hl
  | tail hs h ih =>
    have hi₁ := Leaps.inv hs hi
    have hlast := (h.course hi₁).changes hi₁
    obtain ⟨hbefore, hafter⟩ := ha.cut ((Leaps.course hs hi).changes hi).journal hlast.journal
    have hunmoved := h.unmoved hi₁ hafter hk hl
    refine (ih hbefore (fun hcatches => hk ?_) (hlast.lived hi₁ hafter hl)).trans hunmoved
    exact hunmoved.kindOf?.trans hcatches

end

/-! ## 4. What lasts -/

/-- **The turn of a task has come**, and its component is there to run. -/
structure Due (closed : Prop) (e : Engine) (t : Task) (c : Component) : Prop where
  steady : Steady closed e
  queue : ∃ ts, e.queue.tasks = t :: ts
  proceeds : e.stopRequested = false
  instance? : ∃ s, e.instance? t.instanceId = some s ∧ s.failed = false
  component : e.componentOf? t.instanceId t.component = some c
  builtIn : c.kind.isBuiltIn = true

namespace Due

variable {closed : Prop} {e : Engine} {t : Task} {c : Component} (ht : Due closed e t c)
include ht

theorem kindOf? : e.kindOf? t.instanceId t.component = some c.kind := by
  rw [Engine.kindOf?, ht.component, Option.map_some]

theorem live : e.instance? t.instanceId ≠ none := by
  obtain ⟨s, hs, _⟩ := ht.instance?
  rw [hs]
  exact Option.some_ne_none s

theorem not_hasFailed : ¬ e.HasFailed t.instanceId := by
  obtain ⟨s, hs, hf⟩ := ht.instance?
  rintro ⟨s', hs', hf'⟩
  rw [Option.some.inj (hs.symm.trans hs'), hf'] at hf
  cases hf

/-- When the step begins nothing but the queue and the journal has changed. -/
theorem touches : Touches closed e ((e.takeTask t).beginStep t) := by
  have htake : Touches closed e (e.takeTask t) := touches_takeTask t
  exact htake.trans (touches_beginStep (htake.inv ht.steady.inv) t)

theorem inv : Inv closed ((e.takeTask t).beginStep t) := ht.touches.inv ht.steady.inv

/-- The step of a component with progress begins, ends and destroys no instance. -/
theorem calm (handler : Handler) (hk : c.kind.keepsProgress = true) :
    Calm e (closing t.instanceId t.component
      (execute handler t.instanceId t.component c ((e.takeTask t).beginStep t))) := by
  have hstep := (upholds_executeKeeping handler ht.inv ht.builtIn ht.component rfl hk).after
  have hafter := touches_afterStep t.instanceId t.component (hstep.inv ht.inv)
  have hclose : Strokes closed _ _ (closing t.instanceId t.component
      (execute handler t.instanceId t.component c ((e.takeTask t).beginStep t))) :=
    strokes_closing t.instanceId t.component _
  exact ht.touches.calm.trans (hstep.calm.trans (hafter.calm.trans hclose.calm))

end Due

/-- **What lasts**: it holds of a component when its instance begins and as long as the component is
    left alone; it holds after an error came to the component, and after a turn of it. -/
structure Lasting (closed : Prop) (P : Engine → InstanceId → Nat → Prop) : Prop where
  fresh : ∀ {e i c}, Fresh i e → P e i c
  unmoved : ∀ {e e' i c}, Unmoved i c e e' → P e i c → P e' i c
  handed : ∀ {e i c}, Inv closed e → e.catches i c → P e i c →
    ∀ j k message, P (e.handOver j k i c message) i c
  begins : ∀ {e t c}, Due closed e t c → c.kind.keepsProgress = false →
    P e t.instanceId t.component → P ((e.takeTask t).beginStep t) t.instanceId t.component
  ends : ∀ {e i c}, P e i c → P (e.endStep i c false) i c
  stepped : ∀ {e t c} (handler : Handler), Due closed e t c → c.kind.keepsProgress = true →
    P e t.instanceId t.component → P (closing t.instanceId t.component
      (execute handler t.instanceId t.component c ((e.takeTask t).beginStep t)))
      t.instanceId t.component

namespace Lasting

variable {closed : Prop} {own : Leeway} {P : Engine → InstanceId → Nat → Prop} {e e' : Engine}
  {x : Option (InstanceId × Nat)} (hP : Lasting closed P)
include hP

theorem pace (h : Pace closed own e e') (hi : Inv closed e) (ha : e.AllLive)
    (hx : ∀ i c p, own i c p → x = some (i, c)) (hp : HoldsBut x P e) : HoldsBut x P e' := by
  intro i c hne hl
  by_cases hn : e.instance? i = none
  · obtain ⟨e₁, hfresh, hunmoved⟩ := h.fresh hi ha hn hl
    exact hP.unmoved (hunmoved c) (hP.fresh hfresh)
  · exact hP.unmoved (h.unmoved hi (fun p ho => hne (hx i c p ho)) hn hl) (hp i c hne hn)

/-- **It holds after paces** in which only the exempt component may get or lose progress. -/
theorem paces (h : Paces closed own e e') (hi : Inv closed e) (ha : e.AllLive)
    (hx : ∀ i c p, own i c p → x = some (i, c)) (hp : HoldsBut x P e) : HoldsBut x P e' := by
  induction h with
  | refl => exact hp
  | tail hs h ih => exact hP.pace h (Paces.inv hs hi) (Paces.allLive hs hi ha) hx ih

/-- It holds after a change that leaves alone all components whose instances are left. -/
theorem stays (hn : ∀ i, e'.instance? i ≠ none → e.instance? i ≠ none)
    (hu : ∀ i c, x ≠ some (i, c) → e.instance? i ≠ none → e'.instance? i ≠ none →
      Unmoved i c e e') (hp : HoldsBut x P e) : HoldsBut x P e' :=
  fun i c hne hl => hP.unmoved (hu i c hne (hn i hl) hl) (hp i c hne (hn i hl))

/-- **It holds after an error** went on its way. -/
theorem raise (hi : Inv closed e) (ha : e.AllLive) (hp : HoldsBut none P e) (i : InstanceId)
    (component : Nat) (message : String) : HoldsBut none P (e.raiseError i component message) := by
  have huntouched {e' : Engine} (h : Strokes closed untouched e e') : HoldsBut none P e' :=
    hP.paces h.paces hi ha (fun _ _ _ ho => ho.elim) hp
  rcases raiseError_cases hi i component message with h | ⟨e₁, catcher, k, h, hk, he⟩
  · exact huntouched h
  · have hi₁ := h.inv hi
    have hhand : Strokes closed (alone catcher k) e₁
        (e₁.handOver i component catcher k message) := strokes_handOver .refl i component hk ⟨rfl, rfl⟩
    have hothers : HoldsBut (some (catcher, k)) P (e₁.handOver i component catcher k message) :=
      hP.paces hhand.paces hi₁ (h.allLive ha) (fun _ _ _ ho => by rw [ho.1, ho.2])
        ((huntouched h).but _)
    rw [he]
    refine hothers.close fun hl => hP.handed hi₁ hk ?_ i component message
    exact huntouched h catcher k (Option.some_ne_none (catcher, k)).symm
      fun hn => hl (hhand.calm.none_iff.mpr hn)

/-- A component without progress has none to lose when its step ends. -/
theorem closed_idle {i : InstanceId} {c : Nat} {outcome : EStateM.Result FlowError Engine Step}
    (hr : ∀ r s, outcome = .ok r s → r = .completed)
    (hn : (stateAfter outcome).progress? i c = none) (hp : P (stateAfter outcome) i c) :
    P (closing i c outcome) i c := by
  match outcome with
  | .ok .completed _ => exact hP.ends hp
  | .ok .suspended s => exact nomatch hr .suspended s rfl
  | .error _ s =>
    have hnone : ((s.endStep i c false).progress? i c).isSome = false := by
      rw [show (s.endStep i c false).progress? i c = none from hn]
      rfl
    show P ((s.endStep i c false).releaseProgress i c) i c
    unfold releaseProgress
    rw [hnone]
    exact hP.ends hp

/-- It holds after the step of a component, of all others and, if it held or holds again, of the
    component itself. -/
theorem executed (handler : Handler) {i : InstanceId} {index : Nat} {c : Component}
    (hi : Inv closed e) (ha : e.AllLive) (hc : e.componentOf? i index = some c)
    (hx : e.executing = some (i, index)) (hh : c.kind.isBuiltIn = true)
    (hp : HoldsBut (some (i, index)) P e)
    (hkeep : c.kind.keepsProgress = true → P (closing i index (execute handler i index c e)) i index)
    (hidle : c.kind.keepsProgress = false →
      (e.instance? i ≠ none → P e i index) ∧ e.progress? i index = none) :
    HoldsBut none P (closing i index (execute handler i index c e)) := by
  have hinv := (upholds_execute handler hi hc hx hh).after.inv hi
  have hafter := touches_afterStep i index hinv
  have hclose : Strokes closed _ _ (closing i index (execute handler i index c e)) :=
    strokes_closing i index _
  have hcalm := hafter.calm.trans hclose.calm
  have hclosing (hs : HoldsBut (some (i, index)) P (stateAfter (execute handler i index c e))) :
      HoldsBut (some (i, index)) P (closing i index (execute handler i index c e)) := by
    exact hP.stays (fun _ hl hn => hl (hcalm.none_iff.mpr hn))
      (fun _ _ hne hl _ => unmoved_closing (ne_pair hne) hl) hs
  cases hk : c.kind.keepsProgress with
  | true =>
    have hstrokes := (upholds_executeKeeping handler hi hh hc hx hk).after
    have hs := hP.paces hstrokes.paces hi ha (fun _ _ _ ho => by rw [ho.1, ho.2]) hp
    exact (hclosing hs).close fun _ => hkeep hk
  | false =>
    obtain ⟨hown, hnone⟩ := hidle hk
    have hidle : Upholds (Paces closed untouched e) (fun r _ => r = .completed)
        (execute handler i index c) e := upholds_executeIdle handler hi hh hk
    have hpaces : Paces closed untouched e (stateAfter (execute handler i index c e)) := hidle.after
    have hgives : Paces closed nobody e (stateAfter (execute handler i index c e)) :=
      hpaces.mono fun _ _ _ ho => ho.elim
    have hs := hP.paces hpaces hi ha (fun _ _ _ ho => ho.elim) (hp.close hown)
    refine (hclosing (hs.but _)).close fun hl => ?_
    refine hP.closed_idle (fun r s he => (hidle.of_ok he).2) ((hgives.retains hi).empty hnone) ?_
    exact hs i index (Option.some_ne_none _).symm fun hn => hl (hcalm.none_iff.mpr hn)

/-- The turn of a task leaves the other components alone. -/
theorem taken {t : Task} {ts : List Task} (hq : e.queue.tasks = t :: ts)
    (hp : HoldsBut none P e) :
    HoldsBut (some (t.instanceId, t.component)) P (e.takeTask t) :=
  hP.stays (e := e) (fun _ hl => hl) (fun _ _ hne hl _ => unmoved_takeTask hq (ne_pair hne) hl)
    (hp.but _)

/-- **It holds after a step**, also of the component whose step it was. -/
theorem step (handler : Handler) {t : Task} {c : Component} (ht : Due closed e t c)
    (hp : HoldsBut none P e) : HoldsBut none P (closing t.instanceId t.component
      (execute handler t.instanceId t.component c ((e.takeTask t).beginStep t))) := by
  obtain ⟨ts, hq⟩ := ht.queue
  have hown : P e t.instanceId t.component := hp _ _ (Option.some_ne_none _).symm ht.live
  refine hP.executed handler ht.inv (ht.steady.live.takeTask t) ht.component rfl ht.builtIn ?_
    (fun hk => hP.stepped handler ht hk hown) fun hk => ⟨fun _ => hP.begins ht hk hown, ?_⟩
  · exact hP.stays (e := e.takeTask t) (fun _ hl => hl)
      (fun _ _ hne hl _ => unmoved_beginStep (ne_pair hne) hl) (hP.taken hq hp)
  · exact ht.steady.rest.orderly.progress?_none ht.kindOf? hk

theorem tidy (hi : Inv closed e) (ha : e.AllLive) (hp : HoldsBut none P e) (i : InstanceId)
    (component : Nat) : HoldsBut none P (e.tidy i component) := by
  have hpaces : Paces closed untouched e (e.tidy i component) := paces_tidy hi .refl i component
  exact hP.paces hpaces hi ha (fun _ _ _ ho => ho.elim) hp

/-- It holds after a turn in which no step is run because its instance has failed. -/
theorem failed {t : Task} {ts : List Task} (hq : e.queue.tasks = t :: ts)
    (hs : Strokes closed (alone t.instanceId t.component) (e.takeTask t) e')
    (hidles : Idles (e.takeTask t) e') (hqueue : e'.queue = (e.takeTask t).queue)
    (hf : e'.HasFailed t.instanceId) (hp : HoldsBut none P e) : HoldsBut none P e' :=
  hP.stays (e := e) (fun _ hl hn => hl (hs.calm.none_iff.mpr hn))
    (fun _ _ _ hl _ => unmoved_failed hq hs hidles hqueue hf hl) hp

/-- It holds after a step with everything that follows from its outcome. -/
theorem ran (handler : Handler) {t : Task} {c : Component} (ht : Due closed e t c)
    (hp : HoldsBut none P e) :
    HoldsBut none P (((e.takeTask t).runStep handler t c).tidy t.instanceId t.component) := by
  have his := (upholds_execute handler ht.inv ht.component rfl ht.builtIn).after.inv ht.inv
  have hia := (touches_afterStep t.instanceId t.component his).inv his
  have haa := allLive_afterStep handler ht.inv ht.component rfl ht.builtIn
    (ht.steady.live.takeTask t)
  have hclose : Strokes closed _ _ (closing t.instanceId t.component
      (execute handler t.instanceId t.component c ((e.takeTask t).beginStep t))) :=
    strokes_closing t.instanceId t.component _
  have hic := hclose.inv hia
  have hac := hclose.allLive haa
  have hstep := hP.step handler ht hp
  unfold runStep
  rcases settleOutcome_cases t.instanceId t.component
    (execute handler t.instanceId t.component c ((e.takeTask t).beginStep t)) with
    he | ⟨message, he⟩
  · rw [he]
    exact hP.tidy hic hac hstep _ _
  · have hraise : Strokes closed anybody _ ((closing t.instanceId t.component
        (execute handler t.instanceId t.component c ((e.takeTask t).beginStep t))).raiseError
          t.instanceId t.component message) :=
      strokes_raised hic _ _ _
    rw [he]
    exact hP.tidy (hraise.inv hic) (hraise.allLive hac) (hP.raise hic hac hstep _ _ _) _ _

/-- **It holds after a turn.** -/
theorem turn (handler : Handler) (h : Steady closed e) (hh : e.definition.Hostless) {t : Task}
    {ts : List Task} (hstop : e.stopRequested = false) (hq : e.queue.tasks = t :: ts)
    (hp : HoldsBut none P e) : HoldsBut none P ((e.takeTask t).runTask handler t) := by
  have hlive : e.instance? t.instanceId ≠ none := h.live t (hq ▸ List.mem_cons_self)
  unfold runTask
  split
  · next hn => exact absurd hn hlive
  next s hs =>
  split
  · next err _ =>
    exact hP.failed hq (.single (.fatal _ t.component err.message))
      (.failFatally _ _ _ _) rfl (hasFailed_failFatally (e := e.takeTask t) hlive _ _) hp
  next c hc =>
  split
  · next hf =>
    have hit := (touches_takeTask t).inv h.inv
    have hrelease : Strokes closed (alone t.instanceId t.component) (e.takeTask t)
        ((e.takeTask t).releaseProgress t.instanceId t.component) :=
      strokes_releaseProgress .refl ⟨rfl, rfl⟩
    refine hP.tidy (hrelease.inv hit) (hrelease.allLive (h.live.takeTask t)) ?_ _ _
    exact hP.failed hq hrelease (.releaseProgress _ _ _) (queue_releaseProgress _ _ _)
      (StaysFailed.releaseProgress _ _ _ _ ⟨s, hs, hf⟩) hp
  · next hf =>
    have hk : e.componentOf? t.instanceId t.component = some c := by
      rw [componentOf?_of_live (e := e) hs]
      exact congrArg Except.toOption hc
    exact hP.ran handler ⟨h, ⟨ts, hq⟩, hstop, ⟨s, hs, by simpa using hf⟩, hk,
      only_componentOf? hh hk⟩ hp

end Lasting

/-! ## 5. Every run -/

section

variable {closed : Prop} {e e' : Engine}

/-- **Every leap keeps steady.** -/
theorem Leap.steady (h : Leap closed True True e e') (hs : Steady closed e) :
    Steady closed e' := by
  refine ⟨(h.course hs.inv).inv hs.inv, h.rest hs.inv hs.rest, h.allLive hs.inv hs.live,
    fun hstopped i => ?_⟩
  cases h with
  | pace _ h => exact h.gone hs.gone hstopped i
  | raise j component message =>
    have hraise : Strokes closed anybody e (e.raiseError j component message) :=
      strokes_raised hs.inv j component _
    rw [hraise.frame.stopped] at hstopped
    exact hraise.calm.none_iff.mpr (hs.gone hstopped i)
  | @task handler t ts hh _ hq =>
    obtain ⟨_, hframe⟩ := frame_runTask ((touches_takeTask t).inv hs.inv) handler (t := t)
      fun c hc => only_componentOf? hh hc
    exact absurd (hframe.stopped.symm.trans hstopped) (Bool.eq_false_iff.mp (hs.proceeds hq))
  | @discard t ts hq hn => exact hs.gone hstopped i
  | restart => cases hstopped
  | halt hl => exact hl i
  | setting he _ =>
    rw [he] at hstopped ⊢
    exact hs.gone hstopped i
  | take hn _ | beginStep hn _ | endStep hn _ _ _ | resume hn _ _ | keep hn _ _ _ =>
    exact absurd trivial hn

theorem steady_built (d : Definition) (config : Config) (dispatcher : Dispatcher) (host : Host)
    (hi : Inv closed (built d config dispatcher host)) :
    Steady closed (built d config dispatcher host) :=
  ⟨hi, rest_built d config dispatcher host, fun _ h => (nomatch h),
    fun _ => instance?_built d config dispatcher host⟩

variable {P : Engine → InstanceId → Nat → Prop} (hP : Lasting closed P)
include hP

/-- **It holds after every leap.** -/
theorem Lasting.leap (h : Leap closed True True e e') (hs : Steady closed e)
    (hp : HoldsBut none P e) : HoldsBut none P e' := by
  have hsame (hd : e'.definition = e.definition) (hf : e'.forest = e.forest)
      (hq : e'.queue = e.queue) (ha : Idles e e') : HoldsBut none P e' := by
    refine hP.stays (fun i hl => ?_) (fun i c _ hl _ => ?_) hp
    · unfold instance? at hl ⊢
      rwa [hf] at hl
    · exact .of_eq hl hd hf (congrArg _ hq) (ha.mono fun _ => Event.isBusiness_of_concerns)
  cases h with
  | pace ho h => exact hP.pace h hs.inv hs.live (fun i c p hown => (ho trivial i c p hown).elim) hp
  | raise i component message => exact hP.raise hs.inv hs.live hp i component message
  | task hh hstop hq => exact hP.turn _ hs hh hstop hq hp
  | @discard t ts hq hn => exact absurd hn (hs.live t (hq ▸ List.mem_cons_self))
  | restart => exact hsame rfl rfl rfl (.record e rfl)
  | halt hl => exact fun i _ _ hlive => absurd (hl i) hlive
  | setting he _ =>
    refine hsame ?_ ?_ ?_ (.silent ?_)
    all_goals rw [he]
  | take hn _ | beginStep hn _ | endStep hn _ _ _ | resume hn _ _ | keep hn _ _ _ =>
    exact absurd trivial hn

theorem Lasting.leaps (h : Leaps closed True True e e') (hs : Steady closed e)
    (hp : HoldsBut none P e) : HoldsBut none P e' := by
  have hboth : Steady closed e' ∧ HoldsBut none P e' := by
    induction h with
    | refl => exact ⟨hs, hp⟩
    | tail _ h ih => exact ⟨h.steady ih.1, hP.leap h ih.1 ih.2⟩
  exact hboth.2

end

section

variable {d : Definition} {config : Config} {dispatcher : Dispatcher} {host : Host} {e₀ : Engine}
  (hb : build d config dispatcher host = .ok e₀) (hh : d.Hostless) (moves : List Move)
  (hk : ∀ m ∈ moves, m.KeepsNothing) (count : Nat) (allowance : Option Nat) (report : TickReport)
include hb hh hk

theorem leaps_between :
    Leaps False True True e₀ (runTasks handler count allowance report (e₀.after moves)).2 := by
  have h₀ : Inv False e₀ := inv_build hb False.elim
  have hd : True → e₀.definition.Hostless := fun _ => by
    rw [(build_eq_ok_iff.mp hb).2]
    exact hh
  have hmoves : Leaps False True True e₀ (e₀.after moves) :=
    leaps_after h₀ hd id moves False.elim fun _ => hk
  exact leaps_runTasks (handlerLeaps_handler False) h₀ hd id hmoves count allowance report

/-- **Every state between the steps of a run is steady**, where the flows have no components of the
    host and the host keeps no progress. -/
theorem steady_between :
    Steady False (runTasks handler count allowance report (e₀.after moves)).2 := by
  have h₀ : Inv False e₀ := inv_build hb False.elim
  refine (leaps_between hb hh moves hk count allowance report).preserves (P := Steady False)
    (fun _ _ _ hl hs => hl.steady hs) h₀ ?_
  obtain ⟨_, rfl⟩ := build_eq_ok_iff.mp hb
  exact steady_built d config dispatcher host h₀

/-- **What lasts holds** in every state between the steps of a run. -/
theorem Lasting.between {P : Engine → InstanceId → Nat → Prop} (hP : Lasting False P) :
    HoldsBut none P (runTasks handler count allowance report (e₀.after moves)).2 := by
  have h₀ : Inv False e₀ := inv_build hb False.elim
  have hrun := leaps_between hb hh moves hk count allowance report
  obtain ⟨_, rfl⟩ := build_eq_ok_iff.mp hb
  exact hP.leaps hrun (steady_built d config dispatcher host h₀)
    fun i _ _ hl => absurd (instance?_built d config dispatcher host i) hl

end

end InstrumentFlow.Engine
