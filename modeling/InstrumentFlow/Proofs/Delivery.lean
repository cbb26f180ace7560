import InstrumentFlow.Proofs.Delivery.Aftermath
import InstrumentFlow.Proofs.Engine.Reached
import InstrumentFlow.Proofs.Wiring

/-!
# What comes to the end of a connection

A value that is sent comes to the end of every connection of the output, one after the other, and
what is pinged there finds it in its slot -- unless the slot held something that counts as the same.
That stays: a zero keeps its sign, and an array its handle, whatever was sent.

* `offered` -- what a slot holds after a value came to it;
* `atPing`, `pinged`, `delivered` -- the moment of the ping, what it answers, and what is left;
* `content?_atPing`, `content?_delivered` -- the slot at both moments;
* `deliverAll_eq`, `aftermath_deliveries` -- connections one after the other;
* `Engine.sending`, `ownPulses` -- how a component begins to send;
* `FansOut` -- the slots at the ends of connections, at each ping and in the end;
* `delivers_or_keeps` -- **a value is sent** like that, and nothing else is different;
* `not_delivers_value_itself` -- an array does not come to a slot that holds an equal one.
-/

namespace InstrumentFlow

open Expression (resolve)

/-- The connections of an output; an output that is not there has none. -/
def Component.wires (c : Component) (output : Nat) : List Connection :=
  ((c.outputs[output]?).map (·.connections)).getD []

namespace Engine

/-! ## 1. One connection -/

/-- **What a slot holds after a value came to it**: the value, unless what it held counts as the
    same. -/
def offered (h : Heap) (held v : Value) : Value := if h.same? held v = some true then held else v

/-- The state in which the component at the end of a connection is pinged. -/
def atPing (i : InstanceId) (v : Value) (e : Engine) (c : Connection) : Engine :=
  match e.content? (.slot i c.targetInput.toNat) with
  | some held => e.arrival i c.targetInput.toNat c.targetComponent.toNat held v
  | none => e

/-- Whether the component at the end of a connection gets queued. -/
def pinged (i : InstanceId) (v : Value) (e : Engine) (c : Connection) : Bool :=
  ((atPing i v e c).ping i c.targetComponent.toNat).1

/-- What a connection leaves: its pulse is used up if it got the component queued. -/
def delivered (i : InstanceId) (v : Value) (e : Engine) (c : Connection) : Engine :=
  let e' := ((atPing i v e c).ping i c.targetComponent.toNat).2
  if pinged i v e c && c.isSequence then e'.clearSlot i c.targetInput.toNat else e'

theorem offered_eq_undefined_iff {h : Heap} {held v : Value} :
    offered h held v = .undefined ↔ v = .undefined := by
  have hu (w : Value) : w = .undefined ↔ w.isUndefined = true := by
    cases w <;> simp [Value.isUndefined]
  unfold offered
  split
  · next hsame => rw [hu, hu, Heap.same?_isUndefined hsame]
  · exact Iff.rfl

section

variable {e : Engine} {i : InstanceId} {c : Connection} {held : Value}
  (hheld : e.content? (.slot i c.targetInput.toNat) = some held) (v : Value)
include hheld

theorem deliver_eq : deliver i v c e = .ok ⟨⟩ (delivered i v e c) := by
  obtain ⟨s, hs, hget⟩ := Option.bind_eq_some_iff.mp hheld
  unfold deliver delivered pinged atPing
  rw [get_bind_apply, hheld]
  dsimp only
  rw [hs]
  dsimp only
  rw [hget]
  rfl

/-- **The slot when its component is pinged.** -/
theorem content?_atPing : (atPing i v e c).content? (.slot i c.targetInput.toNat)
    = some (offered e.heap held v) := by
  unfold atPing arrival offerSlot offered
  rw [hheld]
  dsimp only
  cases hsame : e.heap.same? held v with
  | none => exact content?_writeSlot (e := e.breakDown .endlessArray) hheld v
  | some same =>
    cases same with
    | true => exact hheld
    | false => exact content?_writeSlot hheld v

/-- **The slot when the connection is dealt with.** -/
theorem content?_delivered : (delivered i v e c).content? (.slot i c.targetInput.toNat)
    = some (if pinged i v e c && c.isSequence then .undefined else offered e.heap held v) := by
  have hping : ((atPing i v e c).ping i c.targetComponent.toNat).2.content?
      (.slot i c.targetInput.toNat) = some (offered e.heap held v) :=
    ((aftermath_ping (atPing i v e c) i c.targetComponent.toNat []).content _
      List.not_mem_nil).trans (content?_atPing hheld v)
  unfold delivered
  dsimp only
  split
  · unfold clearSlot
    rw [← content?_slot, hping]
    dsimp only
    split
    · next hundefined =>
      rw [hping]
      cases hoffered : offered e.heap held v <;> simp [hoffered, Value.isUndefined] at hundefined ⊢
    · exact content?_writeSlot hping .undefined
  · exact hping

end

theorem aftermath_delivered (i : InstanceId) (v : Value) (e : Engine) (c : Connection) :
    Aftermath i [c.targetInput.toNat] [c.targetComponent.toNat] e (delivered i v e c) := by
  have hping : Aftermath i [c.targetInput.toNat] [c.targetComponent.toNat] e (atPing i v e c) := by
    unfold atPing
    split
    · exact aftermath_arrival _ _ _ _ _ _ _
    · exact .refl e
  have hpinged := hping.trans (aftermath_ping _ i c.targetComponent.toNat _)
  unfold delivered
  dsimp only
  split
  · exact hpinged.trans (aftermath_clearSlot _ _ _ _)
  · exact hpinged

/-! ## 2. Connections one after the other -/

/-- **Connections one after the other** are dealt with, if their slots are there. -/
theorem deliverAll_eq {i : InstanceId} {v : Value} : ∀ {cs : List Connection} {e : Engine},
    (∀ c ∈ cs, ∃ held, e.content? (.slot i c.targetInput.toNat) = some held) →
    deliverAll i v cs e = .ok ⟨⟩ (cs.foldl (delivered i v) e)
  | [], _, _ => rfl
  | c :: cs, e, h => by
    obtain ⟨held, hheld⟩ := h c List.mem_cons_self
    have hrest : ∀ c' ∈ cs, ∃ held,
        (delivered i v e c).content? (.slot i c'.targetInput.toNat) = some held := fun c' hc' =>
      have ⟨_, hheld'⟩ := h c' (List.mem_cons_of_mem c hc')
      (aftermath_delivered i v e c).held hheld'
    show (deliver i v c >>= fun _ => deliverAll i v cs) e = _
    show EStateM.bind (deliver i v c) (fun _ => deliverAll i v cs) e = _
    unfold EStateM.bind
    rw [deliver_eq hheld]
    exact deliverAll_eq hrest

theorem aftermath_deliveries (i : InstanceId) (v : Value) (cs : List Connection) (e : Engine) :
    Aftermath i (cs.map (·.targetInput.toNat)) (cs.map (·.targetComponent.toNat)) e
      (cs.foldl (delivered i v) e) := by
  induction cs generalizing e with
  | nil => exact .refl e
  | cons c cs ih =>
    have hfirst : Aftermath i ((c :: cs).map (·.targetInput.toNat))
        ((c :: cs).map (·.targetComponent.toNat)) e (delivered i v e c) :=
      (aftermath_delivered i v e c).mono (by simp) (by simp)
    exact hfirst.trans ((ih (delivered i v e c)).mono (List.subset_cons_self _ _)
      (List.subset_cons_self _ _))

/-- **The slots at the ends of connections** as a value is brought to them. -/
structure FansOut (i : InstanceId) (v : Value) (cs : List Connection) (e e' : Engine) : Prop where
  /-- The connections are dealt with in order, and each of them pings its component. -/
  result : e' = cs.foldl (delivered i v) e
  /-- At the ping the slot holds the value, or what it held and what counts as the same. -/
  moments : ∀ earlier c later, cs = earlier ++ c :: later →
    ∃ held, (earlier.foldl (delivered i v) e).content? (.slot i c.targetInput.toNat) = some held
      ∧ (atPing i v (earlier.foldl (delivered i v) e) c).content? (.slot i c.targetInput.toNat)
        = some (offered e.heap held v)
  /-- In the end a slot is empty if the value is, or if a pulse was the last that came to it and got
      its component queued. -/
  left : ∀ earlier c later, cs = earlier ++ c :: later →
    (∀ c' ∈ later, c'.targetInput.toNat ≠ c.targetInput.toNat) →
    ∃ w, e'.content? (.slot i c.targetInput.toNat) = some w
      ∧ (w = .undefined ↔ v = .undefined
        ∨ c.isSequence = true ∧ pinged i v (earlier.foldl (delivered i v) e) c = true)

theorem fansOut_deliveries {i : InstanceId} {v : Value} {cs : List Connection} {e : Engine}
    (h : ∀ c ∈ cs, ∃ held, e.content? (.slot i c.targetInput.toNat) = some held) :
    FansOut i v cs e (cs.foldl (delivered i v) e) := by
  have hfront (earlier : List Connection) {c : Connection} (hc : c ∈ cs) :
      (earlier.foldl (delivered i v) e).heap = e.heap
      ∧ ∃ held, (earlier.foldl (delivered i v) e).content? (.slot i c.targetInput.toNat)
        = some held := by
    have haftermath := aftermath_deliveries i v earlier e
    obtain ⟨held, hheld⟩ := h c hc
    exact ⟨haftermath.heap_eq, haftermath.held hheld⟩
  refine ⟨rfl, fun earlier c later hcs => ?_, fun earlier c later hcs hlast => ?_⟩
  · obtain ⟨hheap, held, hheld⟩ := hfront earlier (c := c) (by simp [hcs])
    exact ⟨held, hheld, hheap ▸ content?_atPing hheld v⟩
  · obtain ⟨_, held, hheld⟩ := hfront earlier (c := c) (by simp [hcs])
    have hrest := (aftermath_deliveries i v later (delivered i v (earlier.foldl (delivered i v) e) c))
    rw [hcs, List.foldl_append, List.foldl_cons,
      hrest.content _ (by simpa using fun c' hc' => hlast c' hc')]
    refine ⟨_, content?_delivered hheld v, ?_⟩
    split
    · next hused =>
      rw [Bool.and_eq_true, and_comm] at hused
      exact ⟨fun _ => .inr hused, fun _ => rfl⟩
    · next hused =>
      rw [Bool.and_eq_true, and_comm] at hused
      rw [offered_eq_undefined_iff]
      exact ⟨.inl, fun h => h.resolve_right hused⟩

/-! ## 3. Sending -/

/-- The pulses that a component uses up by sending, in the middle of its own step. -/
def ownPulses (e : Engine) (i : InstanceId) (component : Nat) : List Nat :=
  if e.executing = some (i, component) then e.sequenceInputs i component else []

/-- A component is about to send: its own pulses are used up. -/
def sending (e : Engine) (i : InstanceId) (component output : Nat) (v : Value) : Engine :=
  (if e.executing = some (i, component) then e.resetSequenceInputs i component else e).record
    (.sent i component output v)

theorem aftermath_sending (e : Engine) (i : InstanceId) (component output : Nat) (v : Value)
    (targets : List Nat) :
    Aftermath i (e.ownPulses i component) targets e (e.sending i component output v) := by
  unfold ownPulses sending
  split
  · exact (aftermath_clearSlots e i _ targets).trans (aftermath_record _ i _ targets rfl rfl)
  · exact aftermath_record _ i _ targets rfl rfl

/-- A component begins to send: what is left to do is done in the state with its own pulses gone. -/
theorem propagate_begins {e : Engine} (hp : e.stopRequested = false) (hs : e.stopped = false)
    {i : InstanceId} {component : Nat} {record : Component}
    (hc : e.componentOf? i component = some record) (output : Nat) (value : Value) :
    propagate i component output value e = ((record.outputs[output]?).elim (pure ⟨⟩) fun out => do
        let v ← resolved .readPropagated value
        deliverAll i v out.connections : Act Unit) (e.sending i component output value) := by
  have hcalm := (aftermath_sending e i component output value []).calm
  rw [← componentOf?_calm hcalm i component] at hc
  obtain ⟨s, hs₁, hrecord⟩ := Option.bind_eq_some_iff.mp hc
  unfold propagate
  rw [get_bind_apply, if_neg (by simp [hp, hs])]
  -- what is read next is read with the component's own pulses gone
  have hs₂ : (if e.executing = some (i, component) then e.resetSequenceInputs i component
      else e).instance? i = some s := hs₁
  have hrecord₂ : (if e.executing = some (i, component) then e.resetSequenceInputs i component
      else e).componentRecord s.flow component = .ok record :=
    componentRecord_eq_ok_iff.mpr hrecord
  simp only [hs₂, hrecord₂]
  cases record.outputs[output]? <;> rfl

/-- **A value is sent**, once it is resolved and if its connections lead to slots. -/
theorem propagate_eq {e : Engine} (hp : e.stopRequested = false) (hs : e.stopped = false)
    {i : InstanceId} {component : Nat} {record : Component}
    (hc : e.componentOf? i component = some record) {output : Nat} {value v : Value}
    (hv : resolve (e.sending i component output value).scope e.heap value = .ok v)
    (hheld : ∀ c ∈ record.wires output, ∃ held,
      (e.sending i component output value).content? (.slot i c.targetInput.toNat) = some held) :
    propagate i component output value e = .ok ⟨⟩
      ((record.wires output).foldl (delivered i v) (e.sending i component output value)) := by
  rw [propagate_begins hp hs hc]
  unfold Component.wires at hheld ⊢
  cases hout : record.outputs[output]? with
  | none => rfl
  | some out =>
    rw [hout] at hheld
    have hread : resolved .readPropagated value (e.sending i component output value)
        = .ok v (e.sending i component output value) := by
      unfold resolved
      rw [get_bind_apply, (aftermath_sending e i component output value []).heap_eq, hv]
      rfl
    show EStateM.bind (resolved .readPropagated value) (fun v => deliverAll i v out.connections)
      (e.sending i component output value) = _
    unfold EStateM.bind
    rw [hread]
    exact deliverAll_eq hheld

/-- The connections of an output are connections of the flow. -/
theorem isWire_of_wires {e : Engine} {i : InstanceId} {component : Nat} {record : Component}
    (hc : e.componentOf? i component = some record) {output : Nat} {c : Connection}
    (hwire : c ∈ record.wires output) : e.IsWire i c := by
  unfold Component.wires at hwire
  cases hout : record.outputs[output]? with
  | none => simp [hout] at hwire
  | some out =>
    exact ⟨component, record, hc, out, List.mem_of_getElem? hout, by simpa [hout] using hwire⟩

/-- In a state that a run comes to the connections lead to slots. -/
theorem held_of_wires {d : Definition} {e : Engine} (h : Reached d e) {i : InstanceId}
    {component : Nat} {record : Component} (hc : e.componentOf? i component = some record)
    {output : Nat} (value : Value) {c : Connection} (hwire : c ∈ record.wires output) :
    ∃ held, (e.sending i component output value).content? (.slot i c.targetInput.toNat)
      = some held := by
  obtain ⟨s, hs⟩ := Option.ne_none_iff_exists'.mp
    (live_of_componentOf? (hc ▸ Option.some_ne_none record))
  obtain ⟨held, hheld⟩ := held_of_isWire h.inv hs h.valid (isWire_of_wires hc hwire)
  have hcontent : e.content? (.slot i c.targetInput.toNat) = some held := by
    rw [content?_slot, hs, Option.bind_some, hheld]
  exact (aftermath_sending e i component output value []).held hcontent

/-- **A value is sent.** In every state that a run comes to, also in the middle of a step, and with no
    stop pending, it comes to the ends of the connections in order. The slots hold it when their
    components are pinged, unless they held what counts as the same. Nothing else is different
    afterwards, but for the component's own pulses, the tasks that joined the queue and, if that
    was full, one fatal error. -/
theorem delivers_or_keeps {d : Definition} {e : Engine} (h : Reached d e)
    (hp : e.stopRequested = false) {i : InstanceId} {component : Nat} {record : Component}
    (hc : e.componentOf? i component = some record) {output : Nat} {value v : Value}
    (hv : resolve (e.sending i component output value).scope e.heap value = .ok v) :
    ∃ e', propagate i component output value e = .ok ⟨⟩ e'
      ∧ FansOut i v (record.wires output) (e.sending i component output value) e'
      ∧ Aftermath i (e.ownPulses i component ++ (record.wires output).map (·.targetInput.toNat))
        ((record.wires output).map (·.targetComponent.toNat)) e e' := by
  have hl : e.instance? i ≠ none := live_of_componentOf? (hc ▸ Option.some_ne_none record)
  have hsending := aftermath_sending e i component output value
    ((record.wires output).map (·.targetComponent.toNat))
  have hheld := fun c (hwire : c ∈ record.wires output) => held_of_wires h hc value hwire
  refine ⟨_, propagate_eq hp (h.going hl) hc hv hheld, fansOut_deliveries hheld, ?_⟩
  exact (hsending.mono (List.subset_append_left _ _) (List.Subset.refl _)).trans
    ((aftermath_deliveries i v _ _).mono (List.subset_append_right _ _) (List.Subset.refl _))

/-- A component with an output that leads to the slot of another one. -/
def wiredDefinition : Definition :=
  { constants := [.undefined, .null]
    flows :=
      [{ name := "main", inputFlags := [0]
         components :=
          [{ kind := .noop, outputs := [{ isSequence := true }, { connections := [⟨1, 0, false⟩] }] },
           { kind := .noop, inputs := [0] }] }] }

/-- The slot holds an array with a one in it, and the host keeps another such array. -/
def paired : Engine :=
  (built wiredDefinition {} .absent {}).after
    [.order ⟨.startFlow 0, none⟩, .order ⟨.setInput ⟨0, 0⟩ 0 (.array [.plain (.int 1)]), none⟩,
     .order ⟨.readThrough (.array [.plain (.int 1)]), some "other"⟩]

theorem reached_paired : Reached wiredDefinition paired := reached_after rfl _

/-- The other array is sent, and the slot keeps its own. -/
theorem delivers_or_keeps_paired :
    Reached wiredDefinition paired ∧ paired.stopRequested = false
    ∧ ∃ e', propagate ⟨0, 0⟩ 0 1 (.array ⟨1⟩) paired = .ok ⟨⟩ e'
      ∧ e'.content? (.slot ⟨0, 0⟩ 0) = some (.array ⟨0⟩) := by
  have hgo : paired.stopRequested = false := by decide +kernel
  have hc : paired.componentOf? ⟨0, 0⟩ 0
      = some { kind := .noop
               outputs := [{ isSequence := true }, { connections := [⟨1, 0, false⟩] }] } := by
    decide +kernel
  have hv : resolve (paired.sending ⟨0, 0⟩ 0 1 (.array ⟨1⟩)).scope paired.heap (.array ⟨1⟩)
      = .ok (.array ⟨1⟩) := rfl
  obtain ⟨e', hrun, hfans, _⟩ := delivers_or_keeps reached_paired hgo hc hv
  refine ⟨reached_paired, hgo, e', hrun, ?_⟩
  rw [hfans.result]
  decide +kernel

/-- A slot that holds an equal array does not come to hold the array that is sent. -/
theorem not_delivers_value_itself :
    ¬ ∀ (d : Definition) (e : Engine), Reached d e → e.stopRequested = false →
      ∀ i component record, e.componentOf? i component = some record → ∀ output value v,
      resolve (e.sending i component output value).scope e.heap value = .ok v →
      ∀ earlier c later, record.wires output = earlier ++ c :: later →
      (atPing i v (earlier.foldl (delivered i v) (e.sending i component output value)) c).content?
        (.slot i c.targetInput.toNat) = some v := by
  intro h
  have hheld := h wiredDefinition paired reached_paired (by decide +kernel) ⟨0, 0⟩ 0 _
    (show paired.componentOf? ⟨0, 0⟩ 0
      = some { kind := .noop
               outputs := [{ isSequence := true }, { connections := [⟨1, 0, false⟩] }] } by
      decide +kernel) 1 (.array ⟨1⟩) (.array ⟨1⟩) rfl [] ⟨1, 0, false⟩ [] rfl
  revert hheld
  decide +kernel

end Engine

end InstrumentFlow
