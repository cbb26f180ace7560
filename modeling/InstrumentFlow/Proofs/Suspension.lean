import InstrumentFlow.Proofs.Suspension.Order

/-!
# Components in the middle of their work

A component keeps progress over the end of its step only where it goes on later: it was suspended,
and a task is queued by which it goes on.

* `ends_execute` -- a step that is not suspended leaves no progress, but for loops;
* `orderly_runTask` -- a task keeps progress in order;
* `Rest`, `Leap.rest` -- between steps progress is in order;
* `progress_between_steps` -- what progress tells, in every run without components of the host.
-/

namespace InstrumentFlow

theorem Progress.keepsProgress_kind {p : Progress} {k : Kind} (h : p.kind? = some k) :
    k.keepsProgress = true := by
  cases p with
  | host _ => cases h
  | _ => exact Option.some.inj h ▸ rfl

namespace Engine

section

variable {closed : Prop} {e : Engine}

/-! ## 1. Steps -/

/-- A component has no progress, unless its kind can have some. -/
theorem Orderly.progress?_none {x : Option (InstanceId × Nat)} (h : e.Orderly x) {i : InstanceId}
    {index : Nat} {k : Kind} (hk : e.kindOf? i index = some k) (hp : k.keepsProgress = false) :
    e.progress? i index = none := by
  refine Option.eq_none_iff_forall_ne_some.mpr fun p he => ?_
  rw [Progress.keepsProgress_kind ((h.suits i index p he).2.symm.trans hk)] at hp
  cases hp

/-- **A step that is not suspended leaves no progress**, also where it fails, unless it is the step
    of a loop. -/
theorem ends_execute (handler : Handler) {i : InstanceId} {index : Nat} {c : Component}
    (hi : Inv closed e) (hk : e.componentOf? i index = some c)
    (hx : e.executing = some (i, index)) (hh : c.kind.isBuiltIn = true) (hl : c.kind ≠ .loop)
    {x : Option (InstanceId × Nat)} (ho : e.Orderly x) :
    Ends (fun s => s.progress? i index = none)
      (fun r s => r = .completed → s.progress? i index = none) (execute handler i index c) e := by
  have hkind {k : Kind} (hc : c.kind = k) : e.kindOf? i index = some k := by
    rw [kindOf?, hk, Option.map_some, hc]
  have hruns {k : Kind} (hc : c.kind = k) : Runs anybody e i index k :=
    ⟨fun _ => trivial, hkind hc, hx⟩
  cases hp : c.kind.keepsProgress with
  | false =>
    -- the component had no progress before, and nobody gets any
    have hnone := ho.progress?_none (k := c.kind) (hkind rfl) hp
    have hidle : Upholds (Paces closed nobody e) (fun r _ => r = .completed)
        (execute handler i index c) e := upholds_executeIdle handler hi hh hp
    exact hidle.ends.mono (fun _ h => (h.retains hi).empty hnone)
      fun _ _ h _ => (h.1.retains hi).empty hnone
  | true =>
    unfold execute
    cases hc : c.kind with
    | catchError =>
      have hcatch : Upholds (Vacant closed nobody e i index) (fun r _ => r = .completed)
          (stepCatch i index) e := upholds_stepCatch hi .refl rfl
      exact hcatch.ends.mono (fun _ h => h.empty) fun _ _ h _ => h.1.empty
    | delay =>
      exact (ends_stepDelay hi .refl (hruns hc)).mono (fun _ h => h.empty) fun _ _ h => h.2
    | loop => exact absurd hc hl
    | scpi =>
      exact (ends_stepScpi hi .refl (hruns hc) c).mono (fun _ h => h.empty) fun _ _ h => h.2
    | _ =>
      rw [hc] at hp
      cases hp

/-! ## 2. The beginning and the end of a step -/

/-- With the turn of a task its component becomes the exempt one. -/
theorem orderly_takeTask {t : Task} {ts : List Task} (hq : e.queue.tasks = t :: ts)
    (ho : e.Orderly none) : (e.takeTask t).Orderly (some (t.instanceId, t.component)) where
  suits := ho.suits
  waits i c p hp hg hne := by
    obtain ⟨hlast, hqueued⟩ := ho.waits i c p hp hg (Option.some_ne_none (i, c)).symm
    refine ⟨hlast, ?_⟩
    rw [hq] at hqueued
    rcases List.mem_cons.mp hqueued with rfl | hmem
    · exact absurd rfl hne
    · show _ ∈ e.queue.tasks.tail
      rw [hq]
      exact hmem

/-- Progress that does not go on needs no exemption. -/
theorem Orderly.strict {i : InstanceId} {c : Nat} (ho : e.Orderly (some (i, c)))
    (hg : ∀ p, e.progress? i c = some p → p.goesOn = false) : e.Orderly none where
  suits := ho.suits
  waits j k p hp hgoes _ := by
    refine ho.waits j k p hp hgoes fun hpair => ?_
    obtain ⟨rfl, rfl⟩ := Prod.mk.inj (Option.some.inj hpair)
    rw [hg p hp] at hgoes
    cases hgoes

theorem Orderly.empty {i : InstanceId} {c : Nat} (ho : e.Orderly (some (i, c)))
    (hn : e.progress? i c = none) : e.Orderly none :=
  ho.strict fun _ hp => nomatch hn.symm.trans hp

theorem leaves_beginStep (e : Engine) (t : Task) : Leaves e (e.beginStep t) :=
  .of_eq rfl rfl rfl fun _ _ => rfl

/-- The end of a step counts for its component only. -/
theorem orderly_endStep {i : InstanceId} {c : Nat} (ho : e.Orderly (some (i, c))) (midway : Bool) :
    (e.endStep i c midway).Orderly (some (i, c)) where
  suits := ho.suits
  waits j k p hp hg hne := by
    obtain ⟨hlast, hqueued⟩ := ho.waits j k p hp hg hne
    refine ⟨?_, hqueued⟩
    have hother : ¬ (i = j ∧ c = k) := by
      rintro ⟨rfl, rfl⟩
      exact hne rfl
    show List.findSome? _ (_ :: e.journal) = _
    rw [List.findSome?_cons_of_isNone]
    · exact hlast
    · simp [Event.endOf?, hother]

/-- **A component that was suspended** is queued again, or loses its progress for want of room. -/
theorem orderly_continueLater {i : InstanceId} {c : Nat}
    (ho : (e.endStep i c true).Orderly (some (i, c))) :
    ((e.endStep i c true).continueLater i c).Orderly none := by
  rcases continueLater_cases (e.endStep i c true) i c with ⟨queue, hq, he⟩ | ⟨_, he⟩
  · rw [he]
    refine ⟨ho.suits, fun j k p hp hg _ => ?_⟩
    show lastEnd? (e.endStep i c true) j k = _ ∧ _ ∈ queue.tasks
    rw [tasks_of_push hq, List.mem_append, List.mem_singleton]
    by_cases hpair : j = i ∧ k = c
    · obtain ⟨rfl, rfl⟩ := hpair
      refine ⟨?_, Or.inr rfl⟩
      unfold lastEnd? endStep record
      rw [List.findSome?_cons_of_isSome] <;> simp [Event.endOf?]
    · have hne : some (i, c) ≠ some (j, k) := by
        rintro ⟨⟩
        exact hpair ⟨rfl, rfl⟩
      obtain ⟨hlast, hqueued⟩ := ho.waits j k p hp hg hne
      exact ⟨hlast, Or.inl hqueued⟩
  · rw [he]
    have hrefused : Leaves (e.endStep i c true)
        ((e.endStep i c true).record (.refused ⟨i, c, true⟩)) := .of_eq rfl rfl rfl fun _ _ => rfl
    have hrelease : Strokes False nobody ((e.endStep i c true).record (.refused ⟨i, c, true⟩))
        (((e.endStep i c true).record (.refused ⟨i, c, true⟩)).releaseProgress i c) :=
      strokes_releaseProgress .refl rfl
    have hfatal : Strokes False nobody _ ((((e.endStep i c true).record
        (.refused ⟨i, c, true⟩)).releaseProgress i c).failFatally i c
          FlowError.queueFull.message) := .single (.fatal i c _)
    have hempty := (hrelease.orderly (fun _ h => nomatch h) (hrefused.orderly ho)).empty
      (progress?_releaseProgress _ i c)
    refine hfatal.orderly (fun _ h => ?_) hempty
    rw [hrelease.frame.executing] at h
    cases h

/-- **Where the task finds no room** the component has lost its progress, and a stop is pending. -/
theorem refused_continueLater {i : InstanceId} {c : Nat}
    (hq : e.queue.push? ⟨i, c, true⟩ = none) :
    ((e.endStep i c true).continueLater i c).progress? i c = none
      ∧ ((e.endStep i c true).continueLater i c).stopRequested = true := by
  have hrefused : (e.endStep i c true).queue.push? ⟨i, c, true⟩ = none := hq
  rcases continueLater_cases (e.endStep i c true) i c with ⟨queue, hpush, _⟩ | ⟨_, he⟩
  · cases hrefused.symm.trans hpush
  rw [he]
  refine ⟨?_, rfl⟩
  rw [progress?_failFatally]
  exact progress?_releaseProgress _ i c

/-! ## 3. Tasks -/

/-- What follows from the outcome of a step keeps progress in order. -/
theorem orderly_settleOutcome {i : InstanceId} {c : Nat}
    {outcome : EStateM.Result FlowError Engine Step} (hi : Inv closed (stateAfter outcome))
    (ho : (stateAfter outcome).Orderly (some (i, c)))
    (hg : ∀ s, outcome = .ok .completed s → ∀ p, s.progress? i c = some p → p.goesOn = false) :
    (settleOutcome i c outcome).Orderly none
      ∧ (settleOutcome i c outcome).executing = none := by
  have hend (midway : Bool) := orderly_endStep ho midway
  match outcome with
  | .ok .completed s => exact ⟨(hend false).strict (hg s rfl), rfl⟩
  | .ok .suspended s =>
    exact ⟨orderly_continueLater (hend true), (SameFrame.continueLater _ i c).executing⟩
  | .error err s =>
    have his : Inv closed (s.endStep i c false) := (touches_endStep hi i c false).inv hi
    have hrelease : Strokes closed nobody (s.endStep i c false)
        ((s.endStep i c false).releaseProgress i c) := strokes_releaseProgress .refl rfl
    have hraise : Strokes closed anybody ((s.endStep i c false).releaseProgress i c)
        (((s.endStep i c false).releaseProgress i c).raiseError i c err.message) :=
      strokes_raiseError (hrelease.inv his) .refl (fun _ _ _ => trivial) i c
    have hempty := (hrelease.orderly (fun _ h => nomatch h) (hend false)).empty
      (progress?_releaseProgress _ i c)
    have hidle := hrelease.frame.executing
    exact ⟨hraise.orderly (fun _ h => nomatch hidle.symm.trans h) hempty,
      hraise.frame.executing.trans hidle⟩

/-- The step of a component of the flows leaves progress that goes on only if it is suspended. -/
theorem goesOn_execute (handler : Handler) {i : InstanceId} {index : Nat} {c : Component}
    (hi : Inv closed e) (hk : e.componentOf? i index = some c)
    (hx : e.executing = some (i, index)) (hh : c.kind.isBuiltIn = true)
    (ho : e.Orderly (some (i, index))) {s : Engine}
    (he : execute handler i index c e = .ok .completed s) {p : Progress}
    (hp : s.progress? i index = some p) : p.goesOn = false := by
  by_cases hl : c.kind = .loop
  · have hkind : e.kindOf? i index = some .loop := by rw [kindOf?, hk, Option.map_some, hl]
    have hruns : Runs anybody e i index .loop :=
      ⟨fun _ => trivial, hkind, hx⟩
    have hloop : Upholds (Strokes closed anybody e) (fun r _ => r = .completed)
        (execute handler i index c) e := by
      unfold execute
      rw [hl]
      exact upholds_stepLoop hi .refl hruns
    obtain ⟨hs, _⟩ := hloop.of_ok he
    have hos := hs.orderly (fun _ h => hx.symm.trans h) ho
    have hsuits := (hos.suits i index p hp).2
    rw [kindOf?_calm hs.calm, hkind] at hsuits
    cases p with
    | loop _ => rfl
    | _ => cases hsuits
  · have hnone := ends_execute handler hi hk hx hh hl ho
    unfold Ends at hnone
    rw [he] at hnone
    cases (hnone rfl).symm.trans hp

/-- **A task keeps progress in order**, from the turn of the task on. -/
theorem orderly_runTask (handler : Handler) {t : Task} (hi : Inv closed e)
    (hh : e.definition.Hostless) (hx : e.executing = none)
    (ho : e.Orderly (some (t.instanceId, t.component))) :
    (e.runTask handler t).Orderly none ∧ (e.runTask handler t).executing = none := by
  have hpaces {e e' : Engine} (h : Paces closed nobody e e') (hi : Inv closed e)
      (he : e.Orderly none ∧ e.executing = none) : e'.Orderly none ∧ e'.executing = none :=
    ⟨h.orderly hi (fun _ hp => nomatch he.2.symm.trans hp) he.1, h.frame.executing.trans he.2⟩
  unfold runTask
  split
  · next hn =>
    refine ⟨ho.empty (Option.eq_none_iff_forall_ne_some.mpr fun p hp => ?_), hx⟩
    exact live_of_progress? hp hn
  next s hs =>
  split
  · next err hc =>
    have hnone : e.progress? t.instanceId t.component = none := by
      refine Option.eq_none_iff_forall_ne_some.mpr fun p hp => ?_
      obtain ⟨hkind, hsuits⟩ := ho.suits _ _ p hp
      refine hkind (hsuits.symm.trans ?_)
      unfold kindOf?
      rw [componentOf?_of_live hs, hc]
      rfl
    exact hpaces (.single (.stroke (.fatal _ _ _))) hi ⟨ho.empty hnone, hx⟩
  next c hc =>
  split
  · have hrelease : Strokes closed nobody e (e.releaseProgress t.instanceId t.component) :=
      strokes_releaseProgress .refl rfl
    have hempty := (hrelease.orderly (fun _ h => nomatch hx.symm.trans h) ho).empty
      (progress?_releaseProgress e _ _)
    exact hpaces (paces_tidy (hrelease.inv hi) .refl _ _) (hrelease.inv hi)
      ⟨hempty, hrelease.frame.executing.trans hx⟩
  · have hk : e.componentOf? t.instanceId t.component = some c := by
      rw [componentOf?_of_live hs, hc]
      rfl
    have hib := (touches_beginStep hi t).inv hi
    have hob := (leaves_beginStep e t).orderly ho
    have hbuiltIn := only_componentOf? hh hk
    have hstep := (upholds_execute handler hib hk rfl hbuiltIn).after
    have his := hstep.inv hib
    have hos := hstep.orderly hib (fun _ h => h) hob
    have hsettle := orderly_settleOutcome his hos fun s hs p hp =>
      goesOn_execute handler hib hk rfl hbuiltIn hob hs hp
    have hia := (touches_afterStep t.instanceId t.component his).inv his
    have hin := (strokes_settleOutcome t.instanceId t.component hia).inv hia
    exact hpaces (paces_tidy hin .refl _ _) hin hsettle

/-! ## 4. Between steps -/

/-- **Between steps** no step is running, and progress is in order. -/
structure Rest (e : Engine) : Prop where
  idle : e.executing = none
  orderly : e.Orderly none

theorem Leaves.rest {e' : Engine} (h : Leaves e e') (hx : e'.executing = e.executing)
    (hr : e.Rest) : e'.Rest := ⟨hx.trans hr.idle, h.orderly hr.orderly⟩

/-- **Every leap leads from rest to rest**, where the flows have no components of the host and the
    host keeps no progress. -/
theorem Leap.rest {e' : Engine} (h : Leap closed True True e e') (hi : Inv closed e)
    (hr : e.Rest) : e'.Rest := by
  have hidle : ∀ pair, e.executing = some pair → none = some pair :=
    fun _ h => nomatch hr.idle.symm.trans h
  cases h with
  | @pace own _ _ h =>
    have hpaces : Paces closed own e e' := .single h
    exact ⟨hpaces.frame.executing.trans hr.idle, hpaces.orderly hi hidle hr.orderly⟩
  | raise i component message =>
    have hraise : Strokes closed anybody e (e.raiseError i component message) :=
      strokes_raised hi i component _
    exact ⟨hraise.frame.executing.trans hr.idle, hraise.orderly hidle hr.orderly⟩
  | @task handler t ts hh _ hq =>
    obtain ⟨horderly, hidle⟩ := orderly_runTask handler ((touches_takeTask t).inv hi) hh hr.idle
      (orderly_takeTask hq hr.orderly)
    exact ⟨hidle, horderly⟩
  | @discard t ts hq hn =>
    have hleaves : Leaves e ((e.takeTask t).record (.discarded t)) := by
      refine .of_instances rfl (fun i s hs => Or.inr ⟨s, hs, rfl, rfl⟩) (fun t' ht hl => ?_)
        fun _ _ => rfl
      rw [hq] at ht
      rcases List.mem_cons.mp ht with rfl | ht
      · exact absurd hn hl
      · show t' ∈ e.queue.tasks.tail
        rw [hq]
        exact ht
    exact hleaves.rest rfl hr
  | restart =>
    have hleaves : Leaves e { e.record .restarted with
        stopped := false, stopRequested := false, lastError := none } :=
      .of_eq rfl rfl rfl fun _ _ => rfl
    exact hleaves.rest rfl hr
  | halt hl =>
    have hnone (i : InstanceId) (c : Nat) (p : Progress) (hp : e.halt.progress? i c = some p) :
        False := live_of_progress? hp (hl i)
    exact ⟨hr.idle, fun i c p hp => (hnone i c p hp).elim, fun i c p hp => (hnone i c p hp).elim⟩
  | setting he _ =>
    have hleaves : Leaves e e' := by
      refine .of_eq ?_ ?_ ?_ fun i c => ?_
      all_goals rw [he]
      rfl
    exact hleaves.rest (by rw [he]) hr
  | take hn _ | beginStep hn _ | endStep hn _ _ _ | resume hn _ _ | keep hn _ _ _ =>
    exact absurd trivial hn

theorem rest_built (d : Definition) (config : Config) (dispatcher : Dispatcher) (host : Host) :
    (built d config dispatcher host).Rest := by
  have hnone (i : InstanceId) (c : Nat) (p : Progress)
      (hp : (built d config dispatcher host).progress? i c = some p) : False :=
    live_of_progress? hp (instance?_built d config dispatcher host i)
  exact ⟨rfl, fun i c p hp => (hnone i c p hp).elim, fun i c p hp => (hnone i c p hp).elim⟩

/-! ## 5. After a step -/

/-- A task of a component of a live instance that has not failed is a step of it. -/
theorem runTask_of_live (handler : Handler) {t : Task} {s : Instance} {c : Component}
    (hs : e.instance? t.instanceId = some s) (hf : s.failed = false)
    (hc : e.componentOf? t.instanceId t.component = some c) :
    e.runTask handler t = (settleOutcome t.instanceId t.component
      (execute handler t.instanceId t.component c (e.beginStep t))).tidy
        t.instanceId t.component := by
  rw [componentOf?_of_live hs] at hc
  unfold runTask
  rw [hs]
  dsimp only
  cases hr : e.componentRecord s.flow t.component with
  | error err =>
    rw [hr] at hc
    cases hc
  | ok record =>
    rw [hr] at hc
    cases hc
    rw [hf]
    rfl

/-- An error gives progress to no component but one that catches errors. -/
theorem kindOf?_raiseError (hi : Inv closed e) {i : InstanceId} {c : Nat}
    (hn : e.progress? i c = none) (message : String) {p : Progress}
    (hp : ((e.raiseError i c message).tidy i c).progress? i c = some p) :
    ((e.raiseError i c message).tidy i c).kindOf? i c = some .catchError := by
  have hraise : Strokes closed (fun j k _ => e.catches j k) e (e.raiseError i c message) :=
    strokes_raiseError hi .refl (fun _ _ h => h) i c
  have hir := hraise.inv hi
  have htidy : Paces closed nobody (e.raiseError i c message) _ := paces_tidy hir .refl i c
  obtain ⟨hp, hkind⟩ := htidy.retains hir i c p hp
  have hcatches : e.catches i c := by
    refine Classical.byContradiction fun hown => ?_
    exact nomatch (hraise.progress?_none (fun _ => hown) hn).symm.trans hp
  exact hkind.trans ((kindOf?_calm hraise.calm i c).trans hcatches)

/-- **What the step of a task leaves** of the progress of its component: nothing where it is
    completed, but for loops, nothing where it fails, unless the component catches errors itself,
    and nothing where it is suspended but finds no room in the queue; then a stop is pending. -/
structure Clears (handler : Handler) (e : Engine) (t : Task) (c : Component) : Prop where
  completed : ∀ s, execute handler t.instanceId t.component c (e.beginStep t) = .ok .completed s →
    c.kind ≠ .loop → s.progress? t.instanceId t.component = none
      ∧ (e.runTask handler t).progress? t.instanceId t.component = none
  failed : ∀ err s,
    execute handler t.instanceId t.component c (e.beginStep t) = .error err s →
      (c.kind ≠ .loop → s.progress? t.instanceId t.component = none)
      ∧ ((e.runTask handler t).progress? t.instanceId t.component = none
        ∨ (e.runTask handler t).kindOf? t.instanceId t.component = some .catchError)
  suspended : ∀ s, execute handler t.instanceId t.component c (e.beginStep t)
    = .ok .suspended s → (c.kind = .delay ∨ c.kind = .scpi)
      ∧ (s.queue.push? ⟨t.instanceId, t.component, true⟩ = none →
        (e.runTask handler t).progress? t.instanceId t.component = none
          ∧ (e.runTask handler t).stopRequested = true)

theorem clears_turn (handler : Handler) {t : Task} {s : Instance} {c : Component}
    (hi : Inv closed e) (hh : e.definition.Hostless)
    (ho : e.Orderly (some (t.instanceId, t.component)))
    (hs : e.instance? t.instanceId = some s) (hf : s.failed = false)
    (hc : e.componentOf? t.instanceId t.component = some c) : Clears handler e t c := by
  have hib := (touches_beginStep hi t).inv hi
  have hob := (leaves_beginStep e t).orderly ho
  have hbuiltIn := only_componentOf? hh hc
  have hexecute := upholds_execute handler hib hc rfl hbuiltIn
  have hempty (hl : c.kind ≠ .loop) := ends_execute handler hib hc rfl hbuiltIn hl hob
  have hrun := runTask_of_live handler hs hf hc
  have htidy {e' : Engine} (hi' : Inv closed e') :
      Paces closed nobody e' (e'.tidy t.instanceId t.component) := paces_tidy hi' .refl _ _
  unfold Ends at hempty
  refine ⟨fun s he hl => ?_, fun err s he => ⟨fun hl => ?_, ?_⟩, fun s he => ⟨?_, ?_⟩⟩
  · have hnone := hempty hl
    rw [he] at hnone
    have his := (hexecute.of_ok he).1.inv hib
    have hie := (touches_endStep his t.instanceId t.component false).inv his
    refine ⟨hnone rfl, ?_⟩
    rw [hrun, he]
    exact ((htidy hie).retains hie).empty (hnone rfl)
  · have hnone := hempty hl
    rwa [he] at hnone
  · have his := (hexecute.of_error he).inv hib
    have hie := (touches_endStep his t.instanceId t.component false).inv his
    have hrelease : Strokes closed nobody (s.endStep t.instanceId t.component false)
        ((s.endStep t.instanceId t.component false).releaseProgress t.instanceId t.component) :=
      strokes_releaseProgress .refl rfl
    rw [hrun, he, or_iff_not_imp_left, Option.eq_none_iff_forall_ne_some, not_forall]
    rintro ⟨p, hp⟩
    exact kindOf?_raiseError (hrelease.inv hie) (progress?_releaseProgress _ _ _) err.message
      (Classical.not_not.mp hp)
  · exact (hexecute.of_ok he).2 rfl
  · intro hq
    have his := (hexecute.of_ok he).1.inv hib
    have hie := (touches_endStep his t.instanceId t.component true).inv his
    have hin := (touches_continueLater hie t.instanceId t.component).inv hie
    obtain ⟨hnone, hstop⟩ := refused_continueLater hq
    rw [hrun, he]
    exact ⟨((htidy hin).retains hin).empty hnone, (htidy hin).frame.stopRequested hstop⟩

end

/-! ## 6. Every run -/

/-- **What progress tells.** Between the steps of every run of flows without components of the host,
    where the host keeps no progress either: progress is kept by a component of a kind that can have
    it, and it is of that kind. A component that goes on by itself was left in the middle of its
    work by its last step, and a task is queued by which it goes on. And the step of the task whose
    turn comes next leaves its component no other progress than that. -/
theorem progress_between_steps {d : Definition} {config : Config} {dispatcher : Dispatcher}
    {host : Host} {e₀ : Engine} (hb : build d config dispatcher host = .ok e₀) (hh : d.Hostless)
    (moves : List Move) (hk : ∀ m ∈ moves, m.KeepsNothing) (count : Nat) (allowance : Option Nat)
    (report : TickReport) {e : Engine}
    (he : e = (runTasks handler count allowance report (e₀.after moves)).2) :
    (∀ i c p, e.progress? i c = some p → ∃ k, e.kindOf? i c = some k
      ∧ k.keepsProgress = true ∧ p.kind? = some k)
    ∧ (∀ i c p, e.progress? i c = some p → p.goesOn = true →
      e.lastEnd? i c = some true ∧ ⟨i, c, true⟩ ∈ e.queue.tasks)
    ∧ ∀ t ts s c, e.queue.tasks = t :: ts → e.instance? t.instanceId = some s →
      s.failed = false → e.componentOf? t.instanceId t.component = some c →
      Clears handler ((e.debuggerBlocks t).2.takeTask t) t c := by
  have h₀ : Inv False e₀ := inv_build hb False.elim
  have hdefinition : e₀.definition = d := by
    rw [(build_eq_ok_iff.mp hb).2]
    rfl
  have hd : True → e₀.definition.Hostless := fun _ => hdefinition ▸ hh
  have hmoves : Leaps False True True e₀ (e₀.after moves) :=
    leaps_after h₀ hd id moves False.elim fun _ => hk
  have hrun : Leaps False True True e₀ e :=
    he ▸ leaps_runTasks (handlerLeaps_handler False) h₀ hd id hmoves count allowance report
  have hrest {e : Engine} (h : Leaps False True True e₀ e) : e.Rest := by
    refine h.preserves (fun _ _ hi hl hr => hl.rest hi hr) h₀ ?_
    rw [(build_eq_ok_iff.mp hb).2]
    exact rest_built d config dispatcher host
  refine ⟨fun i c p hp => ?_, fun i c p hp hg => ?_, fun t ts s c hq hs hf hc => ?_⟩
  · obtain ⟨hsome, hsuits⟩ := (hrest hrun).orderly.suits i c p hp
    obtain ⟨k, hkind⟩ := Option.ne_none_iff_exists'.mp hsome
    exact ⟨k, hsuits.trans hkind, Progress.keepsProgress_kind hkind, hkind⟩
  · exact (hrest hrun).orderly.waits i c p hp hg (Option.some_ne_none (i, c)).symm
  · have hblock := leaps_debuggerBlocks h₀ hrun t
    have hi := hblock.inv h₀
    have hsame := debuggerBlocks_snd e t
    have hqueue := (tasks_debuggerBlocks e t).trans hq
    have hhostless : (e.debuggerBlocks t).2.definition.Hostless := by
      rw [hblock.definition h₀, hdefinition]
      exact hh
    refine clears_turn handler ((touches_takeTask t).inv hi) hhostless
      (orderly_takeTask hqueue (hrest hblock).orderly) (s := s) ?_ hf ?_
    · show (e.debuggerBlocks t).2.instance? t.instanceId = some s
      rw [hsame]
      exact hs
    · show (e.debuggerBlocks t).2.componentOf? t.instanceId t.component = some c
      rw [hsame]
      exact hc

/-- A flow that waits for fifty milliseconds. -/
def waitingDefinition : Definition :=
  { constants := [.undefined, .null, .int 50]
    flows :=
      [{ name := "main"
         components := [{ kind := .delay, properties := [{ instructions := [2, 0, 0, 224] }] }] }] }

/-- In the tick in which the wait begins, after its step: the delay goes on by itself, its last step
    left it in the middle of its work, and it is queued again. -/
theorem progress_between_steps_waiting :
    build waitingDefinition {} .absent {} = .ok (built waitingDefinition {} .absent {})
    ∧ waitingDefinition.Hostless
    ∧ (∀ m ∈ [Move.order ⟨.startFlow 0, none⟩], m.KeepsNothing)
    ∧ ∃ e, e = (runTasks handler 1 none {} ((built waitingDefinition {} .absent {}).after
        [.order ⟨.startFlow 0, none⟩])).2
      ∧ (e.progress? ⟨0, 0⟩ 0).any Progress.goesOn = true
      ∧ e.lastEnd? ⟨0, 0⟩ 0 = some true ∧ ⟨⟨0, 0⟩, 0, true⟩ ∈ e.queue.tasks := by
  have hb : build waitingDefinition {} .absent {}
      = .ok (built waitingDefinition {} .absent {}) := rfl
  have hh : waitingDefinition.Hostless := by decide +kernel
  have hk : ∀ m ∈ [Move.order ⟨.startFlow 0, none⟩], m.KeepsNothing := by
    intro m hm
    rw [List.mem_singleton.mp hm]
    trivial
  have hgoes : (((runTasks handler 1 none {} ((built waitingDefinition {} .absent {}).after
      [.order ⟨.startFlow 0, none⟩])).2).progress? ⟨0, 0⟩ 0).any Progress.goesOn = true := by
    decide +kernel
  obtain ⟨_, hwaits, _⟩ := progress_between_steps hb hh _ hk 1 none {} rfl
  obtain ⟨p, hp, hg⟩ := (Option.any_eq_true _ _).mp hgoes
  exact ⟨hb, hh, hk, _, rfl, hgoes, hwaits _ _ p hp hg⟩

end Engine

end InstrumentFlow
