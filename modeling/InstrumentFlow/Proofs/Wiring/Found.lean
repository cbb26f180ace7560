import InstrumentFlow.Proofs.Lasting.Unmoved

/-!
# Queued tasks and their components

In flows without components of the host the component of every queued task is there: only components
that are there come into the queue, an instance keeps its flow as long as it lives, and with the
instance its tasks are dropped.

* `AllFound` -- the component of every queued task is there;
* `taskFact_found`, `Pace.allFound` -- what happens within a task keeps it;
* `Leap.allFound`, `allFound_between` -- so does every run.
-/

namespace InstrumentFlow.Engine

/-- **The component of every queued task is there.** -/
def AllFound (e : Engine) : Prop :=
  ∀ t ∈ e.queue.tasks, e.componentOf? t.instanceId t.component ≠ none

theorem AllFound.allLive {e : Engine} (h : e.AllFound) : e.AllLive :=
  fun t ht => live_of_componentOf? (h t ht)

theorem Unmoved.componentOf? {i : InstanceId} {c : Nat} {e e' : Engine} (h : Unmoved i c e e') :
    e'.componentOf? i c = e.componentOf? i c := by
  obtain ⟨s, s', hs, hs', hk⟩ := h.kept
  unfold Engine.componentOf?
  rw [hs, hs', h.definition, Option.bind_some, Option.bind_some, hk.flow]

section

variable {closed : Prop} {own : Leeway} {e e' : Engine}

/-! ## 1. Within a task -/

theorem taskFact_found : TaskFact fun e t => e.componentOf? t.instanceId t.component ≠ none where
  found := id
  calm hc hf := by rwa [componentOf?_calm hc]

/-- Nothing new is queued, every task that is left has its instance, and that was left alone. -/
theorem AllFound.unmoved (h : e.AllFound) (hl : e'.AllLive)
    (hq : ∀ t ∈ e'.queue.tasks, t ∈ e.queue.tasks)
    (hu : ∀ i c, e.instance? i ≠ none → e'.instance? i ≠ none → Unmoved i c e e') :
    e'.AllFound := by
  intro t ht
  have hfound := h t (hq t ht)
  rw [(hu t.instanceId t.component (live_of_componentOf? hfound) (hl t ht)).componentOf?]
  exact hfound

theorem AllFound.mark (h : e.AllFound) {event : Event} (hb : event.isBusiness = false)
    (i : InstanceId) (component : Nat) (waits : Bool) :
    ((e.record event).markAsync i component waits).AllFound := by
  refine h.unmoved (h.allLive.mark event i component waits) (fun t ht => ?_)
    fun j c hl _ => .mark hl i component waits hb
  rw [queue_markAsync] at ht
  exact ht

theorem AllFound.arisen (h : e.AllFound) (hi : Inv closed e) (flow : Nat) (f : Flow)
    {parent : Option (InstanceId × Nat)} {isAction : Bool}
    (hp : ∀ p, parent = some p → e.forest.contains p.1 = true) (hc : isAction = parent.isSome) :
    (e.arisen flow f parent isAction).AllFound := by
  have hbegun : (e.begun flow f parent isAction).AllFound :=
    h.unmoved (h.allLive.begun hi flow f hp hc) (fun _ ht => ht)
      fun _ _ hl _ => unmoved_begun hi hp hc hl
  have hpings : Strokes closed untouched (e.begun flow f parent isAction)
      (e.arisen flow f parent isAction) := strokes_arisen flow f parent isAction
  exact taskFact_found.strokes hpings hbegun

theorem Pace.allFound (h : Pace closed own e e') (hi : Inv closed e) (ha : e.AllFound) :
    e'.AllFound := by
  cases h with
  | stroke h => exact taskFact_found.stroke h ha
  | await i component => exact ha.mark rfl i component true
  | release child i component => exact ha.mark rfl i component false
  | begin _ _ => exact ha.arisen hi _ _ (fun _ h => nomatch h) rfl
  | @call flow f i component _ hl =>
    have hlive (p : InstanceId × Nat) (hp : some (i, component) = some p) :
        e.forest.contains p.1 = true := by
      rw [← Option.some.inj hp]
      exact hl
    exact (ha.arisen hi flow f hlive rfl).mark rfl i component true
  | destroy h =>
    exact ha.unmoved (h.allLive ha.allLive) (fun _ ht => h.mem_queue ht)
      fun _ _ _ hl => .destroys h hl
  | settle _ | stop => exact ha

/-! ## 2. Every run -/

/-- **Every leap keeps it** that the component of every queued task is there. -/
theorem Leap.allFound {stateless : Prop} (h : Leap closed True stateless e e')
    (hi : Inv closed e) (ha : e.AllFound) : e'.AllFound :=
  taskFact_found.leap Pace.allFound h hi ha

variable {d : Definition} {config : Config} {dispatcher : Dispatcher} {host : Host} {e₀ : Engine}
  (hb : build d config dispatcher host = .ok e₀) (hh : d.Hostless) (moves : List Move)
  (count : Nat) (allowance : Option Nat) (report : TickReport)
include hb hh

/-- Whatever the host keeps, a run up to a state between two steps is a row of leaps. -/
theorem leaps_amid :
    Leaps False True False e₀ (runTasks handler count allowance report (e₀.after moves)).2 := by
  have h₀ : Inv False e₀ := inv_build hb False.elim
  have hd : True → e₀.definition.Hostless := fun _ => by
    rw [(build_eq_ok_iff.mp hb).2]
    exact hh
  have hmoves : Leaps False True False e₀ (e₀.after moves) :=
    leaps_after h₀ hd False.elim moves False.elim False.elim
  exact leaps_runTasks (handlerLeaps_handler False) h₀ hd False.elim hmoves count allowance report

/-- **In every state between the steps of a run** of flows without components of the host the
    component of every queued task is there. -/
theorem allFound_between :
    (runTasks handler count allowance report (e₀.after moves)).2.AllFound := by
  have h₀ : Inv False e₀ := inv_build hb False.elim
  refine (leaps_amid hb hh moves count allowance report).preserves
    (fun _ _ hi hl ha => hl.allFound hi ha) h₀ ?_
  rw [(build_eq_ok_iff.mp hb).2]
  exact fun _ h => nomatch h

end

end InstrumentFlow.Engine
