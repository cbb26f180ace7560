import InstrumentFlow.Engine.Host
import InstrumentFlow.Proofs.Engine.Calm
import InstrumentFlow.Proofs.Expression.Plain

/-!
# Touches

The small changes that a running program makes between the beginning and the end of instances.

* `Natives.OffersOnly` -- what a host makes up itself and lets read as a native variable;
* `Command.IsHarmless`, `Host.Harmless` -- a host that writes nothing into the flows and hands in
  no places;
* `Engine.Plain` -- nothing that is stored names a place, but the variables of loops;
* `Inv` -- what holds in every state;
* `Touch` -- the small changes, each with what is known where it happens;
* `Touch.calm`, `Touch.inv` -- touches are calm and keep the invariant;
* `Touches` -- touches in a row.

The parameter `closed` tells whether the host is harmless. Without that the host can write any value
into any slot, and the conditions on values are void.
-/

namespace InstrumentFlow

/-! ## 1. Harmless hosts -/

/-- A command that writes nothing into the flows from outside. -/
def Command.IsHarmless : Command → Prop
  | .assignProperty _ _ _ _ _ | .assign _ _ _ _ | .setInput _ _ _ | .setGlobal _ _ => False
  | .readThrough value | .propagate _ _ _ value | .setNative _ value => value.IsPlain
  | _ => True

/-- **The host makes up nothing but such values**: what it lets read was written to it, or it is one
    of them. -/
def Natives.OffersOnly (own : Value → Prop) (n : Natives) : Prop :=
  ∀ written id, n.holds written id ∈ written.map (·.2) ∨ own (n.holds written id)

theorem Natives.offersOnly_standard {own : Value → Prop} (h : own .undefined) (written : NativeTable) :
    Natives.OffersOnly own { written } := by
  intro written id
  cases hl : written.lookup id with
  | none =>
    refine .inr ?_
    show own ((written.lookup id).getD .undefined)
    rwa [hl]
  | some v =>
    obtain ⟨l₁, l₂, rfl, _⟩ := List.lookup_eq_some_iff.mp hl
    refine .inl ?_
    show ((l₁ ++ (id, v) :: l₂).lookup id).getD .undefined ∈ _
    rw [hl]
    simp

/-- What a host lets read is as what was written to it and what it makes up. -/
theorem Natives.OffersOnly.read {own P : Value → Prop} {n : Natives} (h : n.OffersOnly own)
    (hw : ∀ p ∈ n.written, P p.2) (ho : ∀ v, own v → P v) (id : UInt32) : P (n.read id) := by
  rcases h n.written id with hmem | hown
  · obtain ⟨p, hp, heq⟩ := List.mem_map.mp hmem
    have hread : n.read id = p.2 := heq.symm
    exact hread ▸ hw p hp
  · exact ho _ hown

/-- What stands in the table after a write is what was written, or stood there before. -/
theorem Natives.mem_write {n : Natives} {id : UInt32} {v : Value} {p : UInt32 × Value}
    (hp : p ∈ (n.write id v).written) : p = (id, v) ∨ p ∈ n.written :=
  (List.mem_cons.mp hp).imp_right List.mem_of_mem_filter

/-- **The host writes nothing into the flows**, and its native variables name no places. -/
structure Host.Harmless (h : Host) : Prop where
  natives : ∀ p ∈ h.natives.written, p.2.Plain
  offers : h.natives.OffersOnly Value.Plain
  orders : ∀ p ∈ h.components, ∀ call ∈ p.2, ∀ order ∈ call.orders,
    ∀ i component, (order i component).command.IsHarmless

theorem Host.Harmless.native {h : Host} (hh : h.Harmless) (id : UInt32) : (h.native id).Plain := by
  unfold Host.native
  split
  · exact hh.offers.read hh.natives (fun _ hv => hv) id
  · rfl

/-- A host without components that holds what was written, and to which nothing was. -/
theorem Host.harmless_empty : ({} : Host).Harmless where
  natives _ h := nomatch h
  offers :=
    have hplain : Value.undefined.Plain := rfl
    Natives.offersOnly_standard hplain []
  orders _ h := nomatch h

/-- The state of the host may change beside its native variables and its components. -/
theorem Host.Harmless.same {h h' : Host} (hh : h.Harmless) (hn : h'.natives = h.natives)
    (hc : h'.components = h.components) : h'.Harmless where
  natives := hn ▸ hh.natives
  offers := hn ▸ hh.offers
  orders := hc ▸ hh.orders

theorem Host.Harmless.setNative {h : Host} (hh : h.Harmless) (id : UInt32) {v : Value}
    (hv : v.Plain) : (h.setNative id v).Harmless where
  natives p hp := by
    rcases Natives.mem_write hp with rfl | hp
    · exact hv
    · exact hh.natives p hp
  offers := hh.offers
  orders := hh.orders

/-- Whether an event counts when tasks and pulses are counted. -/
def Event.isTraffic : Event → Bool
  | pushed _ | delivered _ _ _ _ | settled _ _ => true
  | _ => false

namespace Engine

/-! ## 2. The invariant -/

/-- What is stored outside the instances names no place. -/
structure Store (e : Engine) : Prop where
  globals : ∀ v ∈ e.globals, v.Plain
  heap : e.heap.Plain
  host : e.host.Harmless

/-- The contents of an instance name no place, but its loops may count in its local variables. -/
structure Contents (i : InstanceId) (s : Instance) : Prop where
  values : ∀ v ∈ s.values, v.Plain
  loops : ∀ l, some (.loop l) ∈ s.progress → l.destination.Within i s.inputCount

/-- **Nothing that is stored names a place** but the variables of loops. -/
structure Plain (e : Engine) : Prop where
  store : e.Store
  contents : ∀ i s, e.instance? i = some s → Contents i s

/-- **What holds in every state**: the links belong together, every instance has the places that its
    flow asks for, and under a harmless host nothing that is stored names a place. -/
structure Inv (closed : Prop) (e : Engine) : Prop where
  sound : e.forest.Sound
  fits : ∀ i s, e.instance? i = some s → Fits e.definition s
  plain : closed → e.Plain

/-! ## 3. Touches -/

/-- The component with a number in a live instance. -/
def componentOf? (e : Engine) (i : InstanceId) (component : Nat) : Option Component :=
  (e.instance? i).bind fun s => e.definition.component? s.flow component

/-- The last that happened is that a value came to the end of a connection. -/
def justDelivered (e : Engine) : Bool :=
  match e.journal with
  | .delivered _ _ _ _ :: _ => true
  | _ => false

/-- What may come into the queue, other than at the end of a connection: a component that is in the
    middle of its work, one that is ready, or a catch component. -/
def MayQueue (e : Engine) (t : Task) : Prop :=
  t.continuous = true ∨ (e.justDelivered = false ∧ e.isReady t.instanceId t.component = true)
    ∨ (e.componentOf? t.instanceId t.component).map Component.kind = some .catchError

/-- A connection of the flow of an instance. -/
def IsWire (e : Engine) (i : InstanceId) (c : Connection) : Prop :=
  ∃ component record, e.componentOf? i component = some record
    ∧ ∃ out ∈ record.outputs, c ∈ out.connections

/-- All pulses of a component are used up. -/
def PulsesGone (e : Engine) (i : InstanceId) (component : Nat) : Prop :=
  ∀ s, e.instance? i = some s → ∀ slot ∈ e.sequenceInputs i component, isDefined s slot = false

/-- A value that came to the end of a connection. -/
def arrival (e : Engine) (i : InstanceId) (slot target : Nat) (held v : Value) : Engine :=
  (e.offerSlot i slot held v).record (.delivered i slot target v)

/-- A value that came to the end of a connection and got its component queued. A pulse is used
    up by that. -/
def firing (e : Engine) (i : InstanceId) (c : Connection) (held v : Value) (queue : TaskQueue) :
    Engine :=
  let e := { e.arrival i c.targetInput.toNat c.targetComponent.toNat held v with queue }
  let e := e.record (.pushed ⟨i, c.targetComponent.toNat, false⟩)
  if c.isSequence then e.clearSlot i c.targetInput.toNat else e

/-- **The small changes.** -/
inductive Touch (closed : Prop) (e : Engine) : Engine → Prop
  /-- Something else happens. -/
  | note {event : Event} (hl : event.isLife = false) (ht : event.isTraffic = false) :
      Touch closed e (e.record event)
  /-- A change outside the instances, the queue and the journal. -/
  | aside {e' : Engine} (hd : e'.definition = e.definition) (hf : e'.forest = e.forest)
      (hq : e'.queue = e.queue) (hj : e'.journal = e.journal) (hs : closed → e'.Store) :
      Touch closed e e'
  /-- A slot is written, under a harmless host only to empty it or if it is no input. -/
  | write {i : InstanceId} {slot : Nat} {v : Value}
      (hv : closed → v.Plain
        ∧ (v = .undefined ∨ ∀ s, e.instance? i = some s → s.inputCount ≤ slot)) :
      Touch closed e (e.modifyInstance i (·.setValue slot v))
  | progress {i : InstanceId} {component : Nat} {p : Option Progress}
      (hp : closed → ∀ l, p = some (.loop l) → ∀ s, e.instance? i = some s →
        l.destination.Within i s.inputCount) :
      Touch closed e (e.setProgress i component p)
  | fail {i : InstanceId} :
      Touch closed e (e.modifyInstance i fun s => { s with failed := true })
  | push {t : Task} {queue : TaskQueue} (hq : e.queue.push? t = some queue) (ht : e.MayQueue t) :
      Touch closed e ({ e with queue }.record (.pushed t))
  /-- Tasks leave the queue. -/
  | drop {queue : TaskQueue} (hq : queue.tasks.Sublist e.queue.tasks)
      (hc : queue.capacity = e.queue.capacity) : Touch closed e { e with queue }
  | arrive {i : InstanceId} {slot target : Nat} {held v : Value} {s : Instance}
      (hs : e.instance? i = some s) (hheld : s.values[slot]? = some held) (hv : closed → v.Plain) :
      Touch closed e (e.arrival i slot target held v)
  | fire {i : InstanceId} {c : Connection} {held v : Value} {s : Instance} {queue : TaskQueue}
      (hs : e.instance? i = some s) (hheld : s.values[c.targetInput.toNat]? = some held)
      (hv : closed → v.Plain) (hw : e.IsWire i c)
      (hr : (e.arrival i c.targetInput.toNat c.targetComponent.toNat held v).isReady i
        c.targetComponent.toNat = true)
      (hq : (e.arrival i c.targetInput.toNat c.targetComponent.toNat held v).queue.push?
        ⟨i, c.targetComponent.toNat, false⟩ = some queue) :
      Touch closed e (e.firing i c held v queue)
  | settle {i : InstanceId} {component : Nat} (h : e.PulsesGone i component) :
      Touch closed e (e.record (.settled i component))

/-! ## 4. Touches are calm -/

theorem calm_arrival (e : Engine) (i : InstanceId) (slot target : Nat) (held v : Value) :
    Calm e (e.arrival i slot target held v) :=
  (calm_offerSlot e i slot held v).trans (Calm.record _ rfl)

theorem calm_firing (e : Engine) (i : InstanceId) (c : Connection) (held v : Value)
    (queue : TaskQueue) : Calm e (e.firing i c held v queue) := by
  have harrival := calm_arrival e i c.targetInput.toNat c.targetComponent.toNat held v
  have hqueue (e : Engine) : Calm e { e with queue } := Calm.of_eq rfl rfl rfl
  have hpush (e : Engine) : Calm e (e.record (.pushed ⟨i, c.targetComponent.toNat, false⟩)) :=
    Calm.record e rfl
  have h := harrival.trans ((hqueue _).trans (hpush _))
  unfold firing
  dsimp only
  split
  · exact h.trans (calm_clearSlot _ _ _)
  · exact h

theorem Touch.calm {closed : Prop} {e e' : Engine} (h : Touch closed e e') : Calm e e' := by
  cases h with
  | note hl _ => exact Calm.record e hl
  | aside hd hf _ hj _ => exact Calm.of_eq hd hf hj
  | write _ => exact Calm.modifyInstance e _ fun s => s.frame_setValue _ _
  | progress _ => exact Calm.modifyInstance e _ fun s => s.frame_setProgress _ _
  | fail => exact Calm.modifyInstance e _ fun s => s.frame_failed true
  | push hq _ =>
    have h (queue : TaskQueue) : Calm e { e with queue } := Calm.of_eq rfl rfl rfl
    exact (h _).trans (Calm.record _ rfl)
  | drop _ _ => exact Calm.of_eq rfl rfl rfl
  | arrive _ _ _ => exact calm_arrival e _ _ _ _ _
  | fire _ _ _ _ _ _ => exact calm_firing e _ _ _ _ _
  | settle _ => exact Calm.record e rfl

/-! ## 5. Touches keep the invariant -/

theorem Contents.setValue {i : InstanceId} {s : Instance} (h : Contents i s) (slot : Nat)
    {v : Value} (hv : v.Plain) : Contents i (s.setValue slot v) where
  values w hw := by
    rcases Array.mem_or_eq_of_mem_setIfInBounds hw with hw | rfl
    · exact h.values w hw
    · exact hv
  loops := h.loops

theorem Contents.setProgress {i : InstanceId} {s : Instance} (h : Contents i s) (component : Nat)
    {p : Option Progress} (hp : ∀ l, p = some (.loop l) → l.destination.Within i s.inputCount) :
    Contents i (s.setProgress component p) where
  values := h.values
  loops l hl := by
    rcases Array.mem_or_eq_of_mem_setIfInBounds hl with hl | hl
    · exact h.loops l hl
    · exact hp l hl.symm

theorem Plain.modifyInstance {e : Engine} (h : e.Plain) {i : InstanceId}
    {change : Instance → Instance}
    (hc : ∀ s, e.instance? i = some s → Contents i s → Contents i (change s)) :
    (e.modifyInstance i change).Plain where
  store := ⟨h.store.globals, h.store.heap, h.store.host⟩
  contents j s hj := by
    rw [instance?_modifyInstance] at hj
    split at hj
    · next hji =>
      obtain ⟨t, ht, rfl⟩ := Option.map_eq_some_iff.mp hj
      rw [hji]
      exact hc t ht (h.contents i t ht)
    · exact h.contents j s hj

theorem Plain.record {e : Engine} (h : e.Plain) (event : Event) : (e.record event).Plain :=
  ⟨⟨h.store.globals, h.store.heap, h.store.host⟩, h.contents⟩

theorem Plain.queue {e : Engine} (h : e.Plain) (queue : TaskQueue) : ({ e with queue }).Plain :=
  ⟨⟨h.store.globals, h.store.heap, h.store.host⟩, h.contents⟩

theorem Plain.writeSlot {e : Engine} (h : e.Plain) (i : InstanceId) (slot : Nat) {v : Value}
    (hv : v.Plain) : (e.writeSlot i slot v).Plain :=
  (h.modifyInstance fun _ _ hs => hs.setValue slot hv).record _

theorem Plain.clearSlot {e : Engine} (h : e.Plain) (i : InstanceId) (slot : Nat) :
    (e.clearSlot i slot).Plain := by
  unfold Engine.clearSlot
  split
  · split
    · exact h
    · exact h.writeSlot i slot rfl
  · exact h

theorem Plain.arrival {e : Engine} (h : e.Plain) (i : InstanceId) (slot target : Nat) (held : Value)
    {v : Value} (hv : v.Plain) : (e.arrival i slot target held v).Plain := by
  refine Plain.record ?_ _
  unfold offerSlot
  split
  · exact h
  · exact h.writeSlot i slot hv
  · have hb : (e.breakDown .endlessArray).Plain :=
      ⟨⟨h.store.globals, h.store.heap, h.store.host⟩, h.contents⟩
    exact hb.writeSlot i slot hv

theorem Plain.firing {e : Engine} (h : e.Plain) (i : InstanceId) (c : Connection) (held : Value)
    {v : Value} (hv : v.Plain) (queue : TaskQueue) : (e.firing i c held v queue).Plain := by
  have hpushed := ((h.arrival i c.targetInput.toNat c.targetComponent.toNat held hv).queue
    queue).record (.pushed ⟨i, c.targetComponent.toNat, false⟩)
  unfold Engine.firing
  dsimp only
  split
  · exact hpushed.clearSlot _ _
  · exact hpushed

theorem Touch.plain {closed : Prop} {e e' : Engine} (h : Touch closed e e') (hc : closed)
    (hp : e.Plain) : e'.Plain := by
  cases h with
  | note _ _ => exact hp.record _
  | aside _ hf _ _ hs =>
    refine ⟨hs hc, fun i s h => hp.contents i s ?_⟩
    unfold instance? at h ⊢
    rwa [← hf]
  | write hv => exact hp.modifyInstance fun _ _ hs => hs.setValue _ (hv hc).1
  | progress hl => exact hp.modifyInstance fun s h hs => hs.setProgress _ fun l he => hl hc l he s h
  | fail => exact hp.modifyInstance fun _ _ hs => ⟨hs.values, hs.loops⟩
  | push _ _ => exact (hp.queue _).record _
  | drop _ _ => exact hp.queue _
  | arrive _ _ hv => exact hp.arrival _ _ _ _ (hv hc)
  | fire _ _ hv _ _ _ => exact hp.firing _ _ _ (hv hc) _
  | settle _ => exact hp.record _

/-- **Touches keep the invariant.** -/
theorem Touch.inv {closed : Prop} {e e' : Engine} (h : Touch closed e e') (hi : Inv closed e) :
    Inv closed e' where
  sound := h.calm.sound hi.sound
  fits := h.calm.fits hi.fits
  plain hc := h.plain hc (hi.plain hc)

/-! ## 6. Touches in a row -/

/-- Touches in a row. -/
abbrev Touches (closed : Prop) : Engine → Engine → Prop := Relation.ReflTransGen (Touch closed)

theorem Touches.calm {closed : Prop} {e e' : Engine} (h : Touches closed e e') : Calm e e' := by
  induction h with
  | refl => exact Calm.refl e
  | tail _ h ih => exact ih.trans h.calm

theorem Touches.inv {closed : Prop} {e e' : Engine} (h : Touches closed e e')
    (hi : Inv closed e) : Inv closed e' := by
  induction h with
  | refl => exact hi
  | tail _ h ih => exact h.inv ih

end Engine

end InstrumentFlow
