import InstrumentFlow.Proofs.Engine.Touch

/-!
# Strokes

What an activity short of the beginning and the end of instances does, one stroke after the other.
Strokes say more than touches: what may become of progress, who may be handed an error, that tasks
only join the queue, and that a refused task is answered by a fatal error at once.

* `Event.isCourse` -- the events that tell of the queue, of steps, of stops and of changes;
* `Progress.kind?`, `Engine.Suits` -- progress belongs to a component of its kind;
* `Leeway` -- what may become of the progress of components;
* `Stroke` -- one stroke, within a leeway;
* `Stroke.touches`, `Strokes.inv`, `Strokes.calm` -- strokes are touches;
* `Strokes.frame` -- what no stroke changes;
* `Stroke.progress_cases`, `Strokes.progress?_none` -- what becomes of progress;
* `Stroke.queue_cases` -- what becomes of the queue.
-/

namespace InstrumentFlow

/-! ## 1. Events and progress -/

/-- Whether an event tells of the queue, of steps, of errors, of stops or of a changed place. -/
def Event.isCourse : Event → Bool
  | refused _ | taken _ | stepped _ | ended _ _ _ | discarded _ | failed _ _ _ | restarted
  | halted | routed _ _ _ _ _ | changed _ => true
  | _ => false

namespace Progress

/-- The kind of component that keeps such progress; the host may keep its own anywhere. -/
def kind? : Progress → Option Kind
  | scpi _ => some .scpi
  | loop _ => some .loop
  | delay _ => some .delay
  | catchError _ => some .catchError
  | host _ => none

/-- Whether the component goes on by itself, in a later tick. -/
def goesOn : Progress → Bool
  | scpi _ | delay _ => true
  | _ => false

end Progress

namespace Engine

/-- The kind of a component of a live instance. -/
def kindOf? (e : Engine) (i : InstanceId) (component : Nat) : Option Kind :=
  (e.componentOf? i component).map Component.kind

/-- Progress belongs to a component of its kind. -/
def Suits (e : Engine) (i : InstanceId) (component : Nat) (p : Progress) : Prop :=
  p.kind? ≠ none ∧ e.kindOf? i component = p.kind?

/-- What the progress of a component may become; `none` where it may lose its progress. -/
abbrev Leeway := InstanceId → Nat → Option Progress → Prop

/-- What must be known of progress that a component gets: the component may get it, it is of the
    right kind, and only a running step leaves progress that goes on by itself. -/
structure MayKeep (own : Leeway) (e : Engine) (i : InstanceId) (component : Nat)
    (p : Progress) : Prop where
  own : own i component (some p)
  suits : e.Suits i component p
  running : p.goesOn = true → e.executing = some (i, component)

/-! ## 2. Strokes -/

/-- **One stroke.** -/
inductive Stroke (closed : Prop) (own : Leeway) (e : Engine) : Engine → Prop
  /-- Something else happens. -/
  | note {event : Event} (hl : event.isLife = false) (ht : event.isTraffic = false)
      (hc : event.isCourse = false) : Stroke closed own e (e.record event)
  /-- Values are computed and arrays and native variables written. -/
  | aside {e' : Engine}
      (he : e' = { e with
        heap := e'.heap, stack := e'.stack, host := e'.host, breakdown := e'.breakdown })
      (hr : e'.host.isRunning = e.host.isRunning) (hs : closed → e'.Store) : Stroke closed own e e'
  | global {index : Nat} {v : Value} (hv : closed → v.Plain) :
      Stroke closed own e (e.writeGlobal index v)
  | element {a : ArrayId} {index : Nat} {v : Value} (hv : closed → v.Plain) :
      Stroke closed own e (e.writeElement a index v)
  /-- A request is sent or looked after. -/
  | request (ledger : Scpi.Ledger) (dispatcher : Dispatcher) :
      Stroke closed own e { e with ledger, dispatcher }
  /-- A slot is written, under a harmless host only to empty it or if it is no input. -/
  | write {i : InstanceId} {slot : Nat} {v : Value}
      (hv : closed → v.Plain
        ∧ (v = .undefined ∨ ∀ s, e.instance? i = some s → s.inputCount ≤ slot)) :
      Stroke closed own e (e.writeSlot i slot v)
  | progress {i : InstanceId} {component : Nat} {p : Option Progress}
      (hn : p = none → own i component none)
      (hk : ∀ q, p = some q → e.MayKeep own i component q)
      (hp : closed → ∀ l, p = some (.loop l) → ∀ s, e.instance? i = some s →
        l.destination.Within i s.inputCount) :
      Stroke closed own e (e.setProgress i component p)
  | fail (i : InstanceId) :
      Stroke closed own e (e.modifyInstance i fun s => { s with failed := true })
  /-- An error goes to a component that may get its message. -/
  | route {catcher : InstanceId} {catchComponent : Nat} {message : String}
      (ho : own catcher catchComponent (some (.catchError message))) (i : InstanceId)
      (component : Nat) :
      Stroke closed own e (e.record (.routed i component catcher catchComponent message))
  /-- An error that nobody caught. -/
  | fatal (i : InstanceId) (component : Nat) (message : String) :
      Stroke closed own e (e.failFatally i component message)
  /-- A task joins the queue that is not to resume anything. -/
  | push {t : Task} {queue : TaskQueue} (hq : e.queue.push? t = some queue) (ht : e.MayQueue t)
      (hf : t.continuous = false) : Stroke closed own e ({ e with queue }.record (.pushed t))
  /-- A task is refused, and that is a fatal error. -/
  | refuse {t : Task} (hq : e.queue.push? t = none) (i : InstanceId) (component : Nat) :
      Stroke closed own e
        ((e.record (.refused t)).failFatally i component FlowError.queueFull.message)
  | arrive {i : InstanceId} {slot target : Nat} {held v : Value} {s : Instance}
      (hs : e.instance? i = some s) (hheld : s.values[slot]? = some held) (hv : closed → v.Plain) :
      Stroke closed own e (e.arrival i slot target held v)
  | fire {i : InstanceId} {c : Connection} {held v : Value} {s : Instance} {queue : TaskQueue}
      (hs : e.instance? i = some s) (hheld : s.values[c.targetInput.toNat]? = some held)
      (hv : closed → v.Plain) (hw : e.IsWire i c)
      (hr : (e.arrival i c.targetInput.toNat c.targetComponent.toNat held v).isReady i
        c.targetComponent.toNat = true)
      (hq : (e.arrival i c.targetInput.toNat c.targetComponent.toNat held v).queue.push?
        ⟨i, c.targetComponent.toNat, false⟩ = some queue) :
      Stroke closed own e (e.firing i c held v queue)

/-- Strokes in a row. -/
abbrev Strokes (closed : Prop) (own : Leeway) : Engine → Engine → Prop :=
  Relation.ReflTransGen (Stroke closed own)

/-- All progress stays as it is. -/
abbrev untouched : Leeway := fun _ _ _ => False

/-- Nobody gets progress. -/
abbrev nobody : Leeway := fun _ _ p => p = none

/-- Only one component gets progress, or loses it. -/
abbrev alone (i : InstanceId) (component : Nat) : Leeway := fun j k _ => j = i ∧ k = component

/-- Anybody gets progress, or loses it. -/
abbrev anybody : Leeway := fun _ _ _ => True

/-! ## 3. Strokes are touches -/

section

variable {closed : Prop} {own : Leeway} {e e' : Engine}

/-- A fatal error is a row of touches. -/
theorem touches_fatal (hs : closed → e.Store) (i : InstanceId) (component : Nat)
    (message : String) : Touches closed e (e.failFatally i component message) := by
  have hstore (hc : closed) (failed : Engine) (hg : failed.globals = e.globals)
      (hh : failed.heap = e.heap) (ho : failed.host = e.host) : failed.Store :=
    ⟨hg ▸ (hs hc).globals, hh ▸ (hs hc).heap, ho ▸ (hs hc).host⟩
  have hfail : Touches closed e (e.modifyInstance i fun s => { s with failed := true }) :=
    .single .fail
  have herror : Touches closed e { e.modifyInstance i (fun s => { s with failed := true }) with
      lastError := some message } :=
    hfail.tail (.aside rfl rfl rfl rfl fun hc => hstore hc _ rfl rfl rfl)
  have hnote {e₁ : Engine} (h : Touches closed e e₁) (event : Event) (hl : event.isLife = false)
      (ht : event.isTraffic = false) : Touches closed e (e₁.record event) := h.tail (.note hl ht)
  have hrecord := hnote (hnote herror (.failed i component message) rfl rfl) .stopAsked rfl rfl
  exact hrecord.tail (.aside rfl rfl rfl rfl fun hc => hstore hc _ rfl rfl rfl)

/-- **A stroke is a row of touches.** -/
theorem Stroke.touches (h : Stroke closed own e e') (hi : Inv closed e) :
    Touches closed e e' := by
  have hstore (hc : closed) : e.Store := (hi.plain hc).store
  cases h with
  | note hl ht _ => exact .single (.note hl ht)
  | aside he _ hs =>
    refine .single (.aside ?_ ?_ ?_ ?_ hs)
    all_goals rw [he]
  | @global index v hv =>
    have hset : Touches closed e { e with globals := e.globals.setIfInBounds index v } := by
      refine .single (.aside rfl rfl rfl rfl fun hc => ?_)
      refine ⟨fun w hw => ?_, (hstore hc).heap, (hstore hc).host⟩
      rcases Array.mem_or_eq_of_mem_setIfInBounds hw with hw | rfl
      · exact (hstore hc).globals w hw
      · exact hv hc
    exact hset.tail (.note rfl rfl)
  | @element a index v hv =>
    have hset : Touches closed e { e with heap := e.heap.write a index v } :=
      .single (.aside rfl rfl rfl rfl fun hc =>
        ⟨(hstore hc).globals, (hstore hc).heap.write a index (hv hc), (hstore hc).host⟩)
    exact hset.tail (.note rfl rfl)
  | request ledger dispatcher =>
    exact .single (.aside rfl rfl rfl rfl fun hc =>
      ⟨(hstore hc).globals, (hstore hc).heap, (hstore hc).host⟩)
  | write hv => exact Relation.ReflTransGen.tail (.single (.write hv)) (.note rfl rfl)
  | progress _ _ hp => exact .single (.progress hp)
  | fail i => exact .single .fail
  | route _ i component => exact .single (.note rfl rfl)
  | fatal i component message => exact touches_fatal hstore i component message
  | push hq ht _ => exact .single (.push hq ht)
  | @refuse t hq i component =>
    have hrefuse : Touches closed e (e.record (.refused t)) := .single (.note rfl rfl)
    have hrefused (hc : closed) : (e.record (.refused t)).Store :=
      ⟨(hstore hc).globals, (hstore hc).heap, (hstore hc).host⟩
    exact hrefuse.trans (touches_fatal hrefused i component _)
  | arrive hs hheld hv => exact .single (.arrive hs hheld hv)
  | fire hs hheld hv hw hr hq => exact .single (.fire hs hheld hv hw hr hq)

/-- **Strokes are touches.** -/
theorem Strokes.touches (h : Strokes closed own e e') (hi : Inv closed e) :
    Touches closed e e' := by
  induction h with
  | refl => exact .refl
  | tail _ h ih => exact ih.trans (h.touches (ih.inv hi))

theorem Strokes.inv (h : Strokes closed own e e') (hi : Inv closed e) : Inv closed e' :=
  (h.touches hi).inv hi

/-- Strokes are calm whatever is known of the values. -/
theorem Stroke.calm (h : Stroke closed own e e') : Calm e e' := by
  have hfatal (e : Engine) (i : InstanceId) (component : Nat) (message : String) :
      Calm e (e.failFatally i component message) :=
    have htouches : Touches False e _ := touches_fatal False.elim i component message
    htouches.calm
  cases h with
  | note hl _ _ => exact Calm.record e hl
  | aside he _ _ => exact Calm.of_eq (by rw [he]) (by rw [he]) (by rw [he])
  | @global index v _ =>
    have hset : Calm e { e with globals := e.globals.setIfInBounds index v } :=
      Calm.of_eq rfl rfl rfl
    exact hset.trans (Calm.record _ rfl)
  | @element a index v _ =>
    have hset : Calm e { e with heap := e.heap.write a index v } := Calm.of_eq rfl rfl rfl
    exact hset.trans (Calm.record _ rfl)
  | request _ _ => exact Calm.of_eq rfl rfl rfl
  | write _ => exact calm_writeSlot e _ _ _
  | progress _ _ _ => exact Calm.modifyInstance e _ fun s => s.frame_setProgress _ _
  | fail _ => exact Calm.modifyInstance e _ fun s => s.frame_failed true
  | route _ _ _ => exact Calm.record e rfl
  | fatal i component message => exact hfatal e i component message
  | @push t queue _ _ _ =>
    have hset : Calm e { e with queue } := Calm.of_eq rfl rfl rfl
    exact hset.trans (Calm.record _ rfl)
  | refuse _ i component => exact (Calm.record e rfl).trans (hfatal _ i component _)
  | arrive _ _ _ => exact calm_arrival e _ _ _ _ _
  | fire _ _ _ _ _ _ => exact calm_firing e _ _ _ _ _

theorem Strokes.calm (h : Strokes closed own e e') : Calm e e' := by
  induction h with
  | refl => exact Calm.refl e
  | tail _ h ih => exact ih.trans h.calm

end

/-! ## 4. What no stroke changes -/

/-- **The frame of a run**: what is agreed before it, who runs, and whether it has stopped. A stop
    that is pending stays so. -/
structure SameFrame (e e' : Engine) : Prop where
  definition : e'.definition = e.definition
  config : e'.config = e.config
  capacity : e'.queue.capacity = e.queue.capacity
  debugger : e'.debugger = e.debugger
  skipBreakpoint : e'.skipBreakpoint = e.skipBreakpoint
  executing : e'.executing = e.executing
  stopped : e'.stopped = e.stopped
  clock : e'.clock = e.clock
  running : e'.host.isRunning = e.host.isRunning
  stopRequested : e.stopRequested = true → e'.stopRequested = true

namespace SameFrame

theorem refl (e : Engine) : SameFrame e e :=
  ⟨rfl, rfl, rfl, rfl, rfl, rfl, rfl, rfl, rfl, id⟩

theorem trans {e e' e'' : Engine} (h : SameFrame e e') (h' : SameFrame e' e'') :
    SameFrame e e'' where
  definition := h'.definition.trans h.definition
  config := h'.config.trans h.config
  capacity := h'.capacity.trans h.capacity
  debugger := h'.debugger.trans h.debugger
  skipBreakpoint := h'.skipBreakpoint.trans h.skipBreakpoint
  executing := h'.executing.trans h.executing
  stopped := h'.stopped.trans h.stopped
  clock := h'.clock.trans h.clock
  running := h'.running.trans h.running
  stopRequested hs := h'.stopRequested (h.stopRequested hs)

theorem clearSlot (e : Engine) (i : InstanceId) (slot : Nat) :
    SameFrame e (e.clearSlot i slot) := by
  unfold Engine.clearSlot
  split
  · split
    · exact refl e
    · exact ⟨rfl, rfl, rfl, rfl, rfl, rfl, rfl, rfl, rfl, id⟩
  · exact refl e

theorem arrival (e : Engine) (i : InstanceId) (slot target : Nat) (held v : Value) :
    SameFrame e (e.arrival i slot target held v) := by
  unfold Engine.arrival offerSlot
  split
  · exact ⟨rfl, rfl, rfl, rfl, rfl, rfl, rfl, rfl, rfl, id⟩
  · exact ⟨rfl, rfl, rfl, rfl, rfl, rfl, rfl, rfl, rfl, id⟩
  · exact ⟨rfl, rfl, rfl, rfl, rfl, rfl, rfl, rfl, rfl, id⟩

end SameFrame

theorem TaskQueue.capacity_of_push {q q' : TaskQueue} {t : Task} (h : q.push? t = some q') :
    q'.capacity = q.capacity := by
  unfold TaskQueue.push? at h
  split at h
  · rw [← Option.some.inj h]
  · cases h

theorem Stroke.frame {closed : Prop} {own : Leeway} {e e' : Engine}
    (h : Stroke closed own e e') : SameFrame e e' := by
  cases h with
  | aside he hr _ =>
    refine ⟨?_, ?_, ?_, ?_, ?_, ?_, ?_, ?_, hr, fun hs => ?_⟩
    all_goals rw [he]
    exact hs
  | fatal _ _ _ | refuse _ _ _ => exact ⟨rfl, rfl, rfl, rfl, rfl, rfl, rfl, rfl, rfl, fun _ => rfl⟩
  | push hq _ _ =>
    exact ⟨rfl, rfl, TaskQueue.capacity_of_push hq, rfl, rfl, rfl, rfl, rfl, rfl, id⟩
  | arrive _ _ _ => exact SameFrame.arrival e _ _ _ _ _
  | @fire i c held v s queue _ _ _ _ _ hq =>
    have harrival := SameFrame.arrival e i c.targetInput.toNat c.targetComponent.toNat held v
    have hpush : SameFrame (e.arrival i c.targetInput.toNat c.targetComponent.toNat held v)
        ({ e.arrival i c.targetInput.toNat c.targetComponent.toNat held v with queue }.record
          (.pushed ⟨i, c.targetComponent.toNat, false⟩)) :=
      ⟨rfl, rfl, TaskQueue.capacity_of_push hq, rfl, rfl, rfl, rfl, rfl, rfl, id⟩
    unfold firing
    dsimp only
    split
    · exact (harrival.trans hpush).trans (SameFrame.clearSlot _ _ _)
    · exact harrival.trans hpush
  | note _ _ _ | global _ | element _ | request _ _ | write _ | progress _ _ _ | fail _
  | route _ _ _ =>
    exact ⟨rfl, rfl, rfl, rfl, rfl, rfl, rfl, rfl, rfl, id⟩

/-- **Strokes keep the frame of the run.** -/
theorem Strokes.frame {closed : Prop} {own : Leeway} {e e' : Engine}
    (h : Strokes closed own e e') : SameFrame e e' := by
  induction h with
  | refl => exact SameFrame.refl e
  | tail _ h ih => exact ih.trans h.frame

/-! ## 5. Kinds of components -/

theorem componentOf?_calm {e e' : Engine} (hc : Calm e e') (i : InstanceId) (component : Nat) :
    e'.componentOf? i component = e.componentOf? i component := by
  unfold componentOf?
  rw [hc.definition]
  cases hs : e.instance? i with
  | none => rw [(hc.none_iff).mpr hs]
  | some s =>
    obtain ⟨s', hs', he⟩ := hc.forth hs
    rw [hs']
    simp only [Option.bind_some]
    rw [Instance.flow_of_frame he]

theorem kindOf?_calm {e e' : Engine} (hc : Calm e e') (i : InstanceId) (component : Nat) :
    e'.kindOf? i component = e.kindOf? i component :=
  congrArg (Option.map Component.kind) (componentOf?_calm hc i component)

/-- The components of an instance are those of its flow. -/
theorem componentOf?_flowOf {e : Engine} {i : InstanceId} {s : Instance}
    (hs : e.instance? i = some s) (component : Nat) :
    e.componentOf? i component = (e.flowOf s).components[component]? := by
  unfold componentOf? Definition.component? flowOf
  rw [hs, Option.bind_some]
  cases e.definition.flows[s.flow]? with
  | none => rfl
  | some f => rfl

/-- A component of an instance that is gone is not there. -/
theorem live_of_componentOf? {e : Engine} {i : InstanceId} {component : Nat}
    (h : e.componentOf? i component ≠ none) : e.instance? i ≠ none := by
  intro hn
  unfold componentOf? at h
  rw [hn] at h
  exact h rfl

/-- A component that is ready is there. -/
theorem componentOf?_of_isReady {e : Engine} {i : InstanceId} {component : Nat}
    (h : e.isReady i component = true) : e.componentOf? i component ≠ none := by
  unfold isReady inputsAllow at h
  split at h
  · cases h
  next s hs =>
  dsimp only at h
  rw [componentOf?_flowOf hs]
  intro hn
  rw [hn] at h
  cases h

theorem hasComponent_calm {e e' : Engine} (hc : Calm e e') {i : InstanceId} {component : Nat} :
    e'.hasComponent i component = e.hasComponent i component := by
  unfold hasComponent
  cases hs : e.instance? i with
  | none => rw [(hc.none_iff).mpr hs]
  | some s =>
    obtain ⟨s', hs', he⟩ := hc.forth hs
    rw [hs', Option.any_some, Option.any_some, Instance.progressSize_of_frame he]

/-- A component of a live instance has its place for progress. -/
theorem hasComponent_of_componentOf? {closed : Prop} {e : Engine} (hi : Inv closed e)
    {i : InstanceId} {component : Nat} {c : Component} (hc : e.componentOf? i component = some c) :
    e.hasComponent i component = true := by
  unfold componentOf? Definition.component? at hc
  obtain ⟨s, hs, hc⟩ := Option.bind_eq_some_iff.mp hc
  obtain ⟨f, hf, hc⟩ := Option.bind_eq_some_iff.mp hc
  obtain ⟨f', hf', _, _, hprogress, _⟩ := (hi.fits i s hs).flow
  obtain rfl : f = f' := Option.some.inj (hf.symm.trans hf')
  have hlt : component < f.components.length := (List.getElem?_eq_some_iff.mp hc).1
  unfold hasComponent
  rw [hs, Option.any_some, hprogress]
  exact decide_eq_true hlt

theorem MayKeep.of_calm {own : Leeway} {e e' : Engine} {i : InstanceId}
    {component : Nat} {p : Progress} (h : e.MayKeep own i component p) (hc : Calm e e')
    (hf : SameFrame e e') : e'.MayKeep own i component p where
  own := h.own
  suits := ⟨h.suits.1, (kindOf?_calm hc i component).trans h.suits.2⟩
  running hp := hf.executing.trans (h.running hp)

/-! ## 6. What becomes of progress -/

theorem progress?_modifyInstance (e : Engine) (i : InstanceId) (change : Instance → Instance)
    (hc : ∀ s, (change s).progress = s.progress) (j : InstanceId) (c : Nat) :
    (e.modifyInstance i change).progress? j c = e.progress? j c := by
  unfold progress?
  rw [instance?_modifyInstance]
  split
  · next hj =>
    rw [hj]
    cases e.instance? i with
    | none => rfl
    | some s =>
      show (change s).progress? c = s.progress? c
      unfold Instance.progress?
      rw [hc]
  · rfl

/-- What a handle leads to after the progress of a component is set. -/
theorem instance?_setProgress (e : Engine) (i j : InstanceId) (component : Nat)
    (p : Option Progress) :
    (e.setProgress i component p).instance? j
      = if j = i then (e.instance? i).map (·.setProgress component p) else e.instance? j :=
  instance?_modifyInstance e i j _

theorem progress?_setProgress (e : Engine) (i j : InstanceId) (component c : Nat)
    (p : Option Progress) :
    (e.setProgress i component p).progress? j c
      = if j = i ∧ c = component then if e.hasComponent i component then p else none
        else e.progress? j c := by
  unfold progress? hasComponent
  rw [instance?_setProgress]
  by_cases hj : j = i
  · subst hj
    cases hs : e.instance? j with
    | none => simp
    | some s =>
      by_cases hc : component = c
      · subst hc
        by_cases hlt : component < s.progress.size <;>
          simp [Instance.progress?, Instance.setProgress, hlt]
      · simp [Instance.progress?, Instance.setProgress, hc, Ne.symm hc]
  · simp [hj]

theorem progress?_setProgress_none (e : Engine) (i : InstanceId) (component : Nat) :
    (e.setProgress i component none).progress? i component = none := by
  rw [progress?_setProgress, if_pos ⟨rfl, rfl⟩]
  split <;> rfl

/-- Progress that is put back is there. -/
theorem progress?_settleProgress {e : Engine} {i : InstanceId} {component : Nat}
    (hc : e.hasComponent i component = true) (hadProgress : Bool) (p : Option Progress) :
    (e.settleProgress i component hadProgress p).progress? i component = p := by
  have hset : (e.setProgress i component p).progress? i component = p := by
    rw [progress?_setProgress, if_pos ⟨rfl, rfl⟩, if_pos hc]
  unfold settleProgress
  rw [if_pos hc]
  dsimp only
  split
  · exact hset
  · exact hset

theorem progress?_releaseProgress (e : Engine) (i : InstanceId) (c : Nat) :
    (e.releaseProgress i c).progress? i c = none := by
  unfold releaseProgress
  split
  · exact progress?_setProgress_none e i c
  · next hn => simpa using hn

theorem progress?_writeSlot (e : Engine) (i : InstanceId) (slot : Nat) (v : Value)
    (j : InstanceId) (c : Nat) : (e.writeSlot i slot v).progress? j c = e.progress? j c :=
  progress?_modifyInstance e i (·.setValue slot v) (fun _ => rfl) j c

theorem progress?_clearSlot (e : Engine) (i : InstanceId) (slot : Nat) (j : InstanceId)
    (c : Nat) : (e.clearSlot i slot).progress? j c = e.progress? j c := by
  unfold clearSlot
  split
  · split
    · rfl
    · exact progress?_writeSlot e i slot _ j c
  · rfl

theorem progress?_arrival (e : Engine) (i : InstanceId) (slot target : Nat) (held v : Value)
    (j : InstanceId) (c : Nat) :
    (e.arrival i slot target held v).progress? j c = e.progress? j c := by
  show (e.offerSlot i slot held v).progress? j c = _
  unfold offerSlot
  split
  · rfl
  · exact progress?_writeSlot e i slot v j c
  · exact progress?_writeSlot (e.breakDown .endlessArray) i slot v j c

theorem progress?_failFatally (e : Engine) (i : InstanceId) (component : Nat) (message : String)
    (j : InstanceId) (c : Nat) :
    (e.failFatally i component message).progress? j c = e.progress? j c :=
  progress?_modifyInstance e i (fun s => { s with failed := true }) (fun _ => rfl) j c

section

variable {closed : Prop} {own : Leeway} {e e' : Engine}

/-- A stroke leaves all progress alone, or gives it to a component that may have it, or takes it
    away. -/
theorem Stroke.progress_cases (h : Stroke closed own e e') :
    (∀ j c, e'.progress? j c = e.progress? j c)
      ∨ ∃ i component p, (p = none → own i component none)
        ∧ (∀ q, p = some q → e.MayKeep own i component q) ∧ e' = e.setProgress i component p := by
  cases h with
  | @progress i component p hn hk _ => exact Or.inr ⟨i, component, p, hn, hk, rfl⟩
  | aside he _ _ =>
    refine Or.inl fun j c => ?_
    rw [he]
    rfl
  | write _ => exact Or.inl (progress?_writeSlot e _ _ _)
  | fail i => exact Or.inl (progress?_modifyInstance e i _ fun _ => rfl)
  | fatal i component message => exact Or.inl (progress?_failFatally e i component message)
  | refuse _ i component => exact Or.inl (progress?_failFatally _ i component _)
  | arrive _ _ _ => exact Or.inl (progress?_arrival e _ _ _ _ _)
  | @fire i c held v s queue _ _ _ _ _ _ =>
    refine Or.inl fun j k => ?_
    have harrival := progress?_arrival e i c.targetInput.toNat c.targetComponent.toNat held v j k
    unfold firing
    dsimp only
    split
    · exact (progress?_clearSlot _ _ _ j k).trans harrival
    · exact harrival
  | note _ _ _ | global _ | element _ | request _ _ | route _ _ _ | push _ _ _ =>
    exact Or.inl fun _ _ => rfl

/-- Strokes give nothing to a component that may not have progress. -/
theorem Strokes.progress?_none (h : Strokes closed own e e') {i : InstanceId} {c : Nat}
    (hown : ∀ p, ¬ own i c (some p)) (hn : e.progress? i c = none) :
    e'.progress? i c = none := by
  induction h with
  | refl => exact hn
  | tail _ h ih =>
    rcases h.progress_cases with hsame | ⟨j, component, p, _, hk, rfl⟩
    · exact (hsame i c).trans ih
    · rw [progress?_setProgress]
      split
      · next hpair =>
        obtain ⟨rfl, rfl⟩ := hpair
        cases p with
        | none => split <;> rfl
        | some q => exact absurd (hk q rfl).own (hown q)
      · exact ih

/-- Where the progress of a component may not change, it is the same as before. -/
theorem Strokes.progress?_same (h : Strokes closed own e e') {i : InstanceId} {c : Nat}
    (hown : ∀ p, ¬ own i c p) : e'.progress? i c = e.progress? i c := by
  induction h with
  | refl => rfl
  | tail _ h ih =>
    rcases h.progress_cases with hsame | ⟨j, component, p, hn, hk, rfl⟩
    · exact (hsame i c).trans ih
    · rw [progress?_setProgress, if_neg, ih]
      rintro ⟨rfl, rfl⟩
      cases p with
      | none => exact hown none (hn rfl)
      | some q => exact hown (some q) (hk q rfl).own

/-- More may become of progress. -/
theorem Strokes.mono {own' : Leeway} (h : Strokes closed own e e')
    (ho : ∀ i c p, own i c p → own' i c p) : Strokes closed own' e e' := by
  refine Relation.ReflTransGen.mono (fun _ _ h => ?_) _ _ h
  cases h with
  | note hl ht hc => exact .note hl ht hc
  | aside he hr hs => exact .aside he hr hs
  | global hv => exact .global hv
  | element hv => exact .element hv
  | request ledger dispatcher => exact .request ledger dispatcher
  | write hv => exact .write hv
  | progress hn hk hp => exact .progress (fun hp => ho _ _ _ (hn hp)) (fun q hq =>
      ⟨ho _ _ _ (hk q hq).own, (hk q hq).suits, (hk q hq).running⟩) hp
  | fail i => exact .fail i
  | route hr i component => exact .route (ho _ _ _ hr) i component
  | fatal i component message => exact .fatal i component message
  | push hq ht hf => exact .push hq ht hf
  | refuse hq i component => exact .refuse hq i component
  | arrive hs hheld hv => exact .arrive hs hheld hv
  | fire hs hheld hv hw hr hq => exact .fire hs hheld hv hw hr hq

/-! ## 7. What becomes of the queue -/

theorem queue_clearSlot (e : Engine) (i : InstanceId) (slot : Nat) :
    (e.clearSlot i slot).queue = e.queue := by
  unfold clearSlot
  split
  · split <;> rfl
  · rfl

theorem queue_arrival (e : Engine) (i : InstanceId) (slot target : Nat) (held v : Value) :
    (e.arrival i slot target held v).queue = e.queue := by
  unfold arrival offerSlot
  split <;> rfl

theorem tasks_of_push {q q' : TaskQueue} {t : Task} (h : q.push? t = some q') :
    q'.tasks = q.tasks ++ [t] := by
  unfold TaskQueue.push? at h
  split at h
  · rw [← Option.some.inj h]
  · cases h

/-- Only components that are there may come into the queue, but for those that go on. -/
theorem MayQueue.found {t : Task} (h : e.MayQueue t) (hf : t.continuous = false) :
    e.componentOf? t.instanceId t.component ≠ none := by
  rcases h with hcont | ⟨_, hready⟩ | hkind
  · exact Bool.noConfusion (hf.symm.trans hcont)
  · exact componentOf?_of_isReady hready
  · intro hn
    rw [hn] at hkind
    cases hkind

/-- A stroke leaves the queue alone, or the task of a component that is there joins it, which is not
    to resume anything. -/
theorem Stroke.queue_cases (h : Stroke closed own e e') :
    e'.queue = e.queue
      ∨ ∃ t, e.componentOf? t.instanceId t.component ≠ none ∧ t.continuous = false
        ∧ e'.queue.tasks = e.queue.tasks ++ [t] := by
  cases h with
  | aside he _ _ =>
    refine Or.inl ?_
    rw [he]
  | @push t queue hq ht hf => exact Or.inr ⟨t, ht.found hf, hf, tasks_of_push hq⟩
  | arrive _ _ _ => exact Or.inl (queue_arrival e _ _ _ _ _)
  | @fire i c held v s queue _ _ _ _ hr hq =>
    refine Or.inr ⟨⟨i, c.targetComponent.toNat, false⟩, ?_, rfl, ?_⟩
    · rw [← componentOf?_calm (calm_arrival e i c.targetInput.toNat _ held v)]
      exact componentOf?_of_isReady hr
    · rw [← queue_arrival e i c.targetInput.toNat c.targetComponent.toNat held v,
        ← tasks_of_push hq]
      unfold firing
      dsimp only
      split
      · rw [queue_clearSlot]
        rfl
      · rfl
  | note _ _ _ | global _ | element _ | request _ _ | write _ | progress _ _ _ | fail _
  | route _ _ _ | fatal _ _ _ | refuse _ _ _ => exact Or.inl rfl

end

end Engine

end InstrumentFlow
