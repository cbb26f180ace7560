import InstrumentFlow.Proofs.Engine.Marks
import InstrumentFlow.Proofs.Engine.Run

/-!
# Queued tasks and their instances

In flows without components of the host every queued task has its instance: only components of live
instances come into the queue, and with an instance its tasks are dropped. So no turn is wasted on a
task whose instance is gone.

* `AllQueued`, `TaskFact` -- what is so of every queued task, and which facts may be;
* `TaskFact.stroke`, `TaskFact.runTask`, `TaskFact.leap` -- strokes, tasks and leaps keep such a fact
  if paces do;
* `AllLive` -- every queued task has its instance;
* `Destroys.allLive`, `Pace.allLive` -- what happens within a task keeps it;
* `allLive_runTask`, `Leap.allLive`, `allLive_after` -- and so does every task and every run.
-/

namespace InstrumentFlow.Engine

/-- **What is so of every queued task.** -/
def AllQueued (P : Engine → Task → Prop) (e : Engine) : Prop := ∀ t ∈ e.queue.tasks, P e t

/-- **A fact about tasks**: it is so of every task whose component is there, and stays so as long as
    nothing happens in the life of an instance. -/
structure TaskFact (P : Engine → Task → Prop) : Prop where
  found {e : Engine} {t : Task} : e.componentOf? t.instanceId t.component ≠ none → P e t
  calm {e e' : Engine} {t : Task} : Calm e e' → P e t → P e' t

/-- **Every queued task has its instance.** -/
def AllLive (e : Engine) : Prop := ∀ t ∈ e.queue.tasks, e.instance? t.instanceId ≠ none

section

variable {closed : Prop} {own : Leeway} {e e' : Engine}

/-! ## 1. Steps that are suspended -/

/-- **A step that is suspended** is the step of a delay or of an SCPI component, and it leaves
    progress. -/
theorem left_of_suspended (handler : Handler) {i : InstanceId} {index : Nat} {c : Component}
    (hi : Inv closed e) (hk : e.componentOf? i index = some c)
    (hx : e.executing = some (i, index)) (hh : c.kind.isBuiltIn = true)
    (he : execute handler i index c e = .ok .suspended e') :
    (c.kind = .delay ∨ c.kind = .scpi) ∧ Left closed anybody e i index .suspended e' := by
  have hkind := ((upholds_execute handler hi hk hx hh).of_ok he).2 rfl
  have hruns : Runs anybody e i index c.kind :=
    ⟨fun _ => trivial, by rw [kindOf?, hk, Option.map_some], hx⟩
  refine ⟨hkind, ?_⟩
  unfold execute at he
  rcases hkind with hc | hc
  · rw [hc] at he hruns
    have hends := ends_stepDelay hi .refl hruns
    unfold Ends at hends
    rwa [show stepDelay i index e = _ from he] at hends
  · rw [hc] at he hruns
    have hends := ends_stepScpi hi .refl hruns c
    unfold Ends at hends
    rwa [show stepScpi i index c e = _ from he] at hends

/-! ## 2. Facts about queued tasks -/

/-- Nothing new is queued, and nothing happens in the life of an instance. -/
theorem AllQueued.calm {P : Engine → Task → Prop} (hP : TaskFact P) (ha : AllQueued P e)
    (hc : Calm e e') (hq : ∀ t ∈ e'.queue.tasks, t ∈ e.queue.tasks) : AllQueued P e' :=
  fun t ht => hP.calm hc (ha t (hq t ht))

theorem queue_setHostState (e : Engine) (i : InstanceId) (component : Nat)
    (state : Option Int32) : (e.setHostState i component state).queue = e.queue := by
  unfold setHostState allocateProgress releaseProgress
  split
  · split <;> rfl
  · split <;> rfl

namespace TaskFact

variable {P : Engine → Task → Prop} (hP : TaskFact P)
include hP

theorem stroke (h : Stroke closed own e e') (ha : AllQueued P e) : AllQueued P e' := by
  intro t ht
  refine hP.calm h.calm ?_
  rcases h.queue_cases with hq | ⟨t', hfound, _, hq⟩
  · exact ha t (hq ▸ ht)
  · rw [hq] at ht
    rcases List.mem_append.mp ht with ht | ht
    · exact ha t ht
    · exact hP.found (List.mem_singleton.mp ht ▸ hfound)

theorem strokes (h : Strokes closed own e e') (ha : AllQueued P e) : AllQueued P e' := by
  induction h with
  | refl => exact ha
  | tail _ h ih => exact hP.stroke h ih

/-- It is so of a component that goes on later, too, if that is there. -/
theorem continueLater (ha : AllQueued P e) {i : InstanceId} {component : Nat}
    (hc : e.componentOf? i component ≠ none) : AllQueued P (e.continueLater i component) := by
  rcases continueLater_cases e i component with ⟨queue, hq, he⟩ | ⟨hq, _⟩
  · have hqueue : Calm e { e with queue } := .of_eq rfl rfl rfl
    rw [he]
    intro t ht
    change t ∈ queue.tasks at ht
    refine hP.calm (hqueue.trans (.record _ rfl)) ?_
    rw [tasks_of_push hq] at ht
    rcases List.mem_append.mp ht with ht | ht
    · exact ha t ht
    · exact List.mem_singleton.mp ht ▸ hP.found hc
  · have hrefused : AllQueued P (e.record (.refused ⟨i, component, true⟩)) :=
      ha.calm hP (.record e rfl) fun _ ht => ht
    have hrest : Strokes False nobody _ (e.continueLater i component) :=
      strokes_continueLater hq rfl
    exact hP.strokes hrest hrefused

/-- What goes on later is still there. -/
theorem afterStep (handler : Handler) {i : InstanceId} {index : Nat} {c : Component}
    (hi : Inv closed e) (hk : e.componentOf? i index = some c)
    (hx : e.executing = some (i, index)) (hh : c.kind.isBuiltIn = true)
    (ha : AllQueued P (stateAfter (execute handler i index c e))) :
    AllQueued P (afterStep i index (execute handler i index c e)) := by
  have hend (e : Engine) (midway : Bool) (ha : AllQueued P e) :
      AllQueued P (e.endStep i index midway) := by
    have hidle : Calm e { e with executing := none } := .of_eq rfl rfl rfl
    exact ha.calm hP (hidle.trans (.record _ rfl)) fun _ ht => ht
  cases he : execute handler i index c e with
  | ok r e' =>
    rw [he] at ha
    cases r with
    | completed => exact hend e' false ha
    | suspended =>
      have hleft := (left_of_suspended handler hi hk hx hh he).2
      refine hP.continueLater (hend e' true ha) ?_
      rw [show (e'.endStep i index true).componentOf? i index = e'.componentOf? i index from rfl,
        componentOf?_calm hleft.strokes.calm, hk]
      exact Option.some_ne_none c
  | error err e' =>
    rw [he] at ha
    exact hend e' false ha

variable (hpace : ∀ {own : Leeway} {e e' : Engine}, Pace closed own e e' → Inv closed e →
  AllQueued P e → AllQueued P e')
include hpace

omit hP in
theorem paces (h : Paces closed own e e') (hi : Inv closed e) (ha : AllQueued P e) :
    AllQueued P e' := by
  induction h with
  | refl => exact ha
  | tail hp h ih => exact hpace h (Paces.inv hp hi) ih

/-- **A task** keeps it so. -/
theorem runTask (handler : Handler) (hi : Inv closed e) (hh : e.definition.Hostless)
    (ha : AllQueued P e) (t : Task) : AllQueued P (e.runTask handler t) := by
  have hbuiltIn (c : Component) (hc : e.componentOf? t.instanceId t.component = some c) :=
    only_componentOf? hh hc
  have hbegin := touches_beginStep hi t
  refine runTask_preserves hi handler hbuiltIn (fun hi₁ h => paces hpace h hi₁)
    (fun ha => ha.calm hP hbegin.calm fun _ ht => ht) (fun c hc ha => ?_) ha
  exact hP.afterStep handler (hbegin.inv hi) hc rfl (hbuiltIn c hc) ha

/-- **Every leap** keeps it so. -/
theorem leap {stateless : Prop} (h : Leap closed True stateless e e') (hi : Inv closed e)
    (ha : AllQueued P e) : AllQueued P e' := by
  have htake (t : Task) : AllQueued P (e.takeTask t) := by
    have htouch : Touches closed e (e.takeTask t) := touches_takeTask t
    exact ha.calm hP htouch.calm fun _ ht => List.mem_of_mem_tail ht
  cases h with
  | pace _ h => exact hpace h hi ha
  | raise i component message => exact hP.strokes (strokes_raised hi i component message) ha
  | @task handler t _ hh _ _ =>
    exact hP.runTask hpace handler ((touches_takeTask t).inv hi) hh (htake t) t
  | @discard t _ _ _ => exact (htake t).calm hP (.record _ rfl) fun _ ht => ht
  | restart =>
    have hrecord : Calm e (e.record .restarted) := .record e rfl
    exact ha.calm hP (hrecord.trans (.of_eq rfl rfl rfl)) fun _ ht => ht
  | halt _ => exact fun _ h => nomatch h
  | setting he _ =>
    rw [he]
    exact ha.calm hP (.of_eq rfl rfl rfl) fun _ ht => ht
  | keep _ i component state =>
    have htouch : Touches closed e (e.setHostState i component state) :=
      touches_setHostState i component state
    refine ha.calm hP htouch.calm fun t ht => ?_
    rwa [queue_setHostState] at ht
  | take hn _ | beginStep hn _ | endStep hn _ _ _ | resume hn _ _ => exact absurd trivial hn

end TaskFact

/-! ## 3. Tasks whose instance is there -/

theorem taskFact_live : TaskFact fun e t => e.instance? t.instanceId ≠ none where
  found := live_of_componentOf?
  calm hc hl hn := hl (hc.none_iff.mp hn)

/-- Nothing new is queued, and whoever has tasks left is left. -/
theorem AllLive.mono (h : e.AllLive) (hq : ∀ t ∈ e'.queue.tasks, t ∈ e.queue.tasks)
    (hl : ∀ t ∈ e'.queue.tasks, e.instance? t.instanceId ≠ none →
      e'.instance? t.instanceId ≠ none) : e'.AllLive :=
  fun t ht => hl t ht (h t (hq t ht))

theorem Strokes.allLive (h : Strokes closed own e e') (ha : e.AllLive) : e'.AllLive :=
  taskFact_live.strokes h ha

theorem AllLive.mark (h : e.AllLive) (event : Event) (i : InstanceId) (component : Nat)
    (waits : Bool) : ((e.record event).markAsync i component waits).AllLive := by
  refine h.mono (fun t ht => ?_) fun t _ hl => ?_
  · rw [queue_markAsync] at ht
    exact ht
  · rw [← Option.isSome_iff_ne_none] at hl ⊢
    exact (contains_markAsync _ i t.instanceId component waits).trans hl

/-- With an instance its tasks are dropped. -/
theorem AllLive.buried {i : InstanceId} {s : Instance} {forest : Forest} (h : e.AllLive)
    (hr : (e.stripped i).forest.remove i = some (s, forest)) :
    ((e.stripped i).buried i forest).AllLive := by
  have hstrip := progressOnly_stripped e i
  intro t ht hn
  obtain ⟨ht, hi⟩ := List.mem_filter.mp ht
  have hne : t.instanceId ≠ i := bne_iff_ne.mp hi
  rw [hstrip.queue_eq] at ht
  obtain ⟨s, hs⟩ := Option.ne_none_iff_exists'.mp (h t ht)
  obtain ⟨s', hs', _⟩ := Forest.get?_remove_of_some hr hne ((hstrip.others _ hne).trans hs)
  exact nomatch hs'.symm.trans hn

theorem AllLive.echoed (h : e.AllLive) (i : InstanceId) : (e.echoed i).AllLive :=
  h.mono (fun _ ht => (List.mem_filter.mp ht).1) fun _ _ hl => hl

theorem Destroys.allLive {job : Job} (h : Destroys job e e') (ha : e.AllLive) : e'.AllLive := by
  induction h with
  | gone _ | nil | unheard _ => exact ha
  | root _ _ hr _ ihk => exact (ihk ha).buried hr
  | called _ _ hr _ _ ihk ihw => exact ihw ((ihk ha).buried hr)
  | again _ _ _ ihk => exact (ihk ha).echoed _
  | cons _ _ ihk ihks => exact ihks (ihk ha)
  | heard _ _ => exact ha.mark _ _ _ false
  | falls _ _ _ ih => exact ih (ha.mark _ _ _ false)

theorem AllLive.begun (h : e.AllLive) (hi : Inv closed e) (flow : Nat) (f : Flow)
    {parent : Option (InstanceId × Nat)} {isAction : Bool}
    (hp : ∀ p, parent = some p → e.forest.contains p.1 = true) (ha : isAction = parent.isSome) :
    (e.begun flow f parent isAction).AllLive := by
  refine h.mono (fun _ ht => ht) fun t _ hl hn => ?_
  obtain ⟨s, hs⟩ := Option.ne_none_iff_exists'.mp hl
  obtain ⟨s', hs', _⟩ := Forest.get?_insert_of_some hi.sound.free
    (rooted_freshInstance flow f hp ha e.heap) hs
  exact nomatch hs'.symm.trans hn

theorem Pace.allLive (h : Pace closed own e e') (hi : Inv closed e) (ha : e.AllLive) :
    e'.AllLive := by
  have harisen {flow : Nat} {f : Flow} {parent : Option (InstanceId × Nat)} {isAction : Bool}
      (hp : ∀ p, parent = some p → e.forest.contains p.1 = true)
      (hs : isAction = parent.isSome) : (e.arisen flow f parent isAction).AllLive := by
    have hpings : Strokes closed own (e.begun flow f parent isAction)
        (e.arisen flow f parent isAction) := strokes_arisen flow f parent isAction
    exact hpings.allLive (ha.begun hi flow f hp hs)
  cases h with
  | stroke h => exact taskFact_live.stroke h ha
  | await i component => exact ha.mark _ i component true
  | release child i component => exact ha.mark _ i component false
  | begin _ _ => exact harisen (fun _ h => nomatch h) rfl
  | @call flow f i component _ hl =>
    have hcalled : (e.arisen flow f (some (i, component)) true).AllLive := by
      refine harisen ?_ rfl
      rintro p ⟨⟩
      exact hl
    exact hcalled.mark _ i component true
  | destroy h => exact h.allLive ha
  | settle _ | stop => exact ha

theorem Paces.allLive (h : Paces closed own e e') (hi : Inv closed e) (ha : e.AllLive) :
    e'.AllLive := TaskFact.paces Pace.allLive h hi ha

theorem AllLive.takeTask (h : e.AllLive) (t : Task) : (e.takeTask t).AllLive :=
  h.mono (fun _ ht => List.mem_of_mem_tail ht) fun _ _ hl => hl

theorem allLive_afterStep (handler : Handler) {i : InstanceId} {index : Nat} {c : Component}
    (hi : Inv closed e) (hk : e.componentOf? i index = some c)
    (hx : e.executing = some (i, index)) (hh : c.kind.isBuiltIn = true) (ha : e.AllLive) :
    (afterStep i index (execute handler i index c e)).AllLive :=
  taskFact_live.afterStep handler hi hk hx hh
    ((upholds_execute handler hi hk hx hh).after.allLive hi ha)

/-- **A task keeps it** that every queued task has its instance. -/
theorem allLive_runTask (handler : Handler) (hi : Inv closed e) (hh : e.definition.Hostless)
    (ha : e.AllLive) (t : Task) : (e.runTask handler t).AllLive :=
  taskFact_live.runTask Pace.allLive handler hi hh ha t

theorem Leap.allLive {stateless : Prop} (h : Leap closed True stateless e e')
    (hi : Inv closed e) (ha : e.AllLive) : e'.AllLive :=
  taskFact_live.leap Pace.allLive h hi ha

/-- **In every run of flows without components of the host** every queued task has its
    instance. -/
theorem allLive_after {d : Definition} {config : Config} {dispatcher : Dispatcher} {host : Host}
    {e₀ : Engine} (hb : build d config dispatcher host = .ok e₀) (hh : d.Hostless)
    (moves : List Move) : (e₀.after moves).AllLive := by
  have h₀ : Inv False e₀ := inv_build hb False.elim
  obtain ⟨_, rfl⟩ := build_eq_ok_iff.mp hb
  have hrun : Leaps False True False _ ((built d config dispatcher host).after moves) :=
    leaps_after h₀ (fun _ => hh) False.elim moves False.elim False.elim
  exact hrun.preserves (fun _ _ hi h => h.allLive hi) h₀ fun _ h => nomatch h

end

end InstrumentFlow.Engine
