import InstrumentFlow.Proofs.Engine.Marks
import InstrumentFlow.Proofs.Engine.Run
import InstrumentFlow.Proofs.Pulses.Backing

/-!
# Pulses and firings

A pulse that gets its component queued is used up at once. A pulse that finds some data missing
stays in its slot until a task of the component was dealt with, and everything that comes to the
component in the meantime queues it once more.

* `Definition.Consistent` -- wires carry pulses just if they end in pulse slots;
* `Definition.Pulsed`, `holds_of_isReady` -- the components that a pulse starts;
* `lastFlow` -- the flow of an instance, also when it is gone;
* `Backed`, `Change.backed` -- whatever stands in a pulse slot is on the account;
* `firings_after` -- how often a component is queued for the pulses that came to it.
-/

namespace InstrumentFlow

/-! ## 1. Components that a pulse starts -/

namespace Definition

/-- **Wires carry pulses just if they end in pulse slots.** -/
def Consistent (d : Definition) : Prop :=
  ∀ f ∈ d.flows, ∀ component ∈ f.components, ∀ out ∈ component.outputs, ∀ c ∈ out.connections,
    c.isSequence = f.isSequenceInput c.targetInput.toNat

/-- The pulse slots of a component. -/
def pulseSlots (d : Definition) (flow component : Nat) : List Nat :=
  match d.flows[flow]? with
  | none => []
  | some f =>
    match f.components[component]? with
    | none => []
    | some c => (c.inputs.map UInt16.toNat).filter f.isSequenceInput

/-- A component that has pulse slots and waits for them. -/
def Pulsed (d : Definition) (flow component : Nat) : Prop :=
  d.pulseSlots flow component ≠ []
    ∧ ∃ c, d.component? flow component = some c ∧ c.kind ≠ .start ∧ c.kind ≠ .catchError

theorem isSequenceInput_of_mem {d : Definition} {flow component slot : Nat}
    (h : slot ∈ d.pulseSlots flow component) :
    ∃ f, d.flows[flow]? = some f ∧ f.isSequenceInput slot = true := by
  unfold pulseSlots at h
  cases hf : d.flows[flow]? with
  | none =>
    rw [hf] at h
    cases h
  | some f =>
    simp only [hf] at h
    refine ⟨f, rfl, ?_⟩
    split at h
    · cases h
    · exact (List.mem_filter.mp h).2

end Definition

/-- The flow of an instance, read off the lives; the latest one if the handle was used again. -/
def lastFlow (i : InstanceId) : List Event → Option Nat
  | [] => none
  | .created j flow :: earlier => if j = i then some flow else lastFlow i earlier
  | _ :: earlier => lastFlow i earlier

namespace Engine

/-- A slot of a live instance holds something. -/
def Holds (e : Engine) (i : InstanceId) (slot : Nat) : Prop :=
  ∃ s, e.instance? i = some s ∧ isDefined s slot = true

theorem sequenceInputs_eq {e : Engine} {i : InstanceId} {s : Instance}
    (hs : e.instance? i = some s) (component : Nat) :
    e.sequenceInputs i component = e.definition.pulseSlots s.flow component := by
  unfold sequenceInputs Definition.pulseSlots flowOf
  cases hf : e.definition.flows[s.flow]? with
  | none => simp [hs, hf]
  | some f =>
    cases hc : f.components[component]? with
    | none => simp [hs, hf, hc]
    | some c => simp [hs, hf, hc]

section

variable {e : Engine} {i : InstanceId} {flow : Nat}
  (hflow : ∀ s, e.instance? i = some s → s.flow = flow)
include hflow

/-- A component that waits for pulses is ready only if one is there. -/
theorem holds_of_isReady {c : Nat} (hp : e.definition.Pulsed flow c)
    (hr : e.isReady i c = true) : ∃ slot ∈ e.definition.pulseSlots flow c, e.Holds i slot := by
  obtain ⟨hslots, record, hrecord, hstart, hcatch⟩ := hp
  unfold isReady inputsAllow at hr
  cases hs : e.instance? i with
  | none =>
    rw [hs] at hr
    cases hr
  | some s =>
    obtain ⟨f, hf, hget⟩ := Option.bind_eq_some_iff.mp hrecord
    have hflowOf : e.flowOf s = f := by
      unfold flowOf
      rw [hflow s hs, hf]
      rfl
    unfold Definition.pulseSlots at hslots ⊢
    simp only [hf, hget] at hslots ⊢
    simp only [hs, hflowOf, hget] at hr
    unfold slotsAllow at hr
    have hany := (Bool.and_eq_true _ _ ▸ hr).2
    have hslot : ∃ slot ∈ (record.inputs.map UInt16.toNat).filter f.isSequenceInput,
        isDefined s slot = true := by
      simpa [List.isEmpty_iff, hslots, and_assoc] using hany
    obtain ⟨slot, hmem, hdefined⟩ := hslot
    exact ⟨slot, hmem, s, hs, hdefined⟩

/-- A wire that ends in a pulse slot carries a pulse. -/
theorem isSequence_of_isWire (hcons : e.definition.Consistent) {conn : Connection}
    (hw : e.IsWire i conn) {c : Nat}
    (h : conn.targetInput.toNat ∈ e.definition.pulseSlots flow c) : conn.isSequence = true := by
  obtain ⟨component, record, hrecord, out, hout, hconn⟩ := hw
  obtain ⟨s, hs, hrecord⟩ := Option.bind_eq_some_iff.mp hrecord
  obtain ⟨f, hf, hget⟩ := Option.bind_eq_some_iff.mp hrecord
  obtain ⟨f', hf', hflag⟩ := Definition.isSequenceInput_of_mem h
  rw [hflow s hs, hf'] at hf
  obtain rfl := Option.some.inj hf
  rw [hcons f' (List.mem_of_getElem? hf') record (List.mem_of_getElem? hget) out hout conn hconn,
    hflag]

end

/-- Pulse slots are inputs. -/
theorem lt_inputCount_of_mem {d : Definition} {s : Instance} (hfits : Fits d s) {c slot : Nat}
    (h : slot ∈ d.pulseSlots s.flow c) : slot < s.inputCount := by
  obtain ⟨f, hf, hflag⟩ := Definition.isSequenceInput_of_mem h
  obtain ⟨f', hf', hcount, _⟩ := hfits.flow
  rw [hf] at hf'
  obtain rfl := Option.some.inj hf'
  unfold Flow.isSequenceInput Flow.hasFlag at hflag
  rw [hcount]
  split at hflag
  · next hget => exact (List.getElem?_eq_some_iff.mp hget).1
  · cases hflag

/-! ## 2. Slots that hold something -/

/-- An instance after one instance is changed. -/
theorem instance?_modify_cases {e : Engine} {i j : InstanceId} {change : Instance → Instance}
    {s' : Instance} (hs' : (e.modifyInstance j change).instance? i = some s') :
    ∃ s, e.instance? i = some s ∧ ((i = j ∧ s' = change s) ∨ (i ≠ j ∧ s' = s)) := by
  have hget := instance?_modifyInstance e j i change
  rw [hs'] at hget
  split at hget
  · next hij =>
    obtain ⟨s, hs, he⟩ := Option.map_eq_some_iff.mp hget.symm
    exact ⟨s, hij ▸ hs, Or.inl ⟨hij, he.symm⟩⟩
  · next hij => exact ⟨s', hget.symm, Or.inr ⟨hij, rfl⟩⟩

/-- A change of one instance that leaves its slots alone. -/
theorem holds_modify {e : Engine} {i j : InstanceId} {n : Nat} (change : Instance → Instance)
    (hc : ∀ s, (change s).values = s.values) (h : (e.modifyInstance j change).Holds i n) :
    e.Holds i n := by
  obtain ⟨s', hs', hd⟩ := h
  obtain ⟨s, hs, ⟨_, rfl⟩ | ⟨_, rfl⟩⟩ := instance?_modify_cases hs'
  · refine ⟨s, hs, ?_⟩
    unfold isDefined at hd ⊢
    rwa [hc] at hd
  · exact ⟨s', hs, hd⟩

theorem holds_arrival {e : Engine} {i j : InstanceId} {slot target n : Nat} {held v : Value}
    {t : Instance} (ht : e.instance? j = some t) (hheld : t.values[slot]? = some held)
    (h : (e.arrival j slot target held v).Holds i n) :
    (i = j ∧ n = slot ∧ v.isUndefined = false) ∨ (¬ (i = j ∧ n = slot) ∧ e.Holds i n) := by
  obtain ⟨s', hs', hn⟩ := h
  obtain ⟨s, hs, hd⟩ := isDefined_offerSlot ht hheld hs'
  rw [hd] at hn
  split at hn
  · next hij => exact Or.inl ⟨hij.1, hij.2, by simpa using hn⟩
  · next hij => exact Or.inr ⟨hij, s, hs, hn⟩

theorem holds_clearSlot {e : Engine} {i j : InstanceId} {slot n : Nat}
    (h : (e.clearSlot j slot).Holds i n) : e.Holds i n ∧ ¬ (i = j ∧ n = slot) := by
  obtain ⟨s', hs', hn⟩ := h
  obtain ⟨s, hs, hd⟩ := isDefined_clearSlot hs'
  exact ⟨⟨s, hs, ((hd n).mp hn).1⟩, ((hd n).mp hn).2⟩

/-- After a pulse got its component queued, its slot holds nothing. -/
theorem holds_firing {e : Engine} {i j : InstanceId} {conn : Connection} {held v : Value}
    {queue : TaskQueue} {n : Nat} (h : (e.firing j conn held v queue).Holds i n) :
    (e.arrival j conn.targetInput.toNat conn.targetComponent.toNat held v).Holds i n
      ∧ (conn.isSequence = true → ¬ (i = j ∧ n = conn.targetInput.toNat)) := by
  unfold firing at h
  dsimp only at h
  split at h
  · obtain ⟨hn, hne⟩ := holds_clearSlot h
    exact ⟨hn, fun _ => hne⟩
  · next hplain => exact ⟨h, fun hsequence => absurd hsequence hplain⟩

/-- Nothing stands in the slots of an instance that begins. -/
theorem isDefined_freshInstance {flow : Nat} {f : Flow} {parent : Option (InstanceId × Nat)}
    {isAction : Bool} {h : Heap} {slot : Nat} (hlt : slot < f.inputCount) :
    isDefined (freshInstance flow f parent isAction h).1 slot = false := by
  have hinput : slot < (List.replicate f.inputCount Value.undefined).length := by simpa using hlt
  unfold isDefined
  show Option.any _ (List.toArray (List.replicate f.inputCount Value.undefined ++ _))[slot]? = _
  rw [List.getElem?_toArray, List.getElem?_append_left hinput, List.getElem?_replicate,
    if_pos hlt]
  rfl

/-! ## 3. Accounts along single events -/

section

variable {i : InstanceId} {c : Nat} {slots : List Nat} {e : Engine} {P : Nat → Prop}
  (h : Backs slots (account i c slots e.journal) P)
include h

/-- Writing the value that came to a slot is not booked. -/
theorem backs_offerSlot (j : InstanceId) (slot : Nat) (held v : Value) :
    Backs slots (account i c slots (e.offerSlot j slot held v).journal) P := by
  unfold offerSlot
  split
  · exact h
  · exact h.quiet rfl rfl
  · exact h.quiet rfl rfl

/-- Emptying a slot is not booked. -/
theorem backs_clearSlot (j : InstanceId) (slot : Nat) :
    Backs slots (account i c slots (e.clearSlot j slot).journal) P := by
  unfold clearSlot
  split
  · split
    · exact h
    · exact h.quiet rfl rfl
  · exact h

/-- A mark that is set or taken away is not booked. -/
theorem backs_markAsync (j : InstanceId) (component : Nat) (waits : Bool) :
    Backs slots (account i c slots (e.markAsync j component waits).journal) P := by
  unfold markAsync
  split
  · exact h
  · split
    · exact h.quiet rfl rfl
    · exact h

end

/-- What is pushed into the queue is pushed for a pulse that is there. -/
theorem MayQueue.pulse {e : Engine} {t : Task} (ht : e.MayQueue t) {i : InstanceId} {flow c : Nat}
    (hflow : ∀ s, e.instance? i = some s → s.flow = flow) (hp : e.definition.Pulsed flow c)
    (hfiring : Event.isFiring i c (.pushed t) = true) :
    (account i c (e.definition.pulseSlots flow c) e.journal).pending = false
      ∧ ∃ slot ∈ e.definition.pulseSlots flow c, e.Holds i slot := by
  have htask : (t.instanceId = i ∧ t.component = c) ∧ t.continuous = false := by
    simpa [Event.isFiring] using hfiring
  obtain ⟨⟨rfl, rfl⟩, hfresh⟩ := htask
  rcases ht with hcontinuous | ⟨hlast, hready⟩ | hcatch
  · rw [hfresh] at hcontinuous
    cases hcontinuous
  · refine ⟨Bool.eq_false_iff.mpr fun hpending => ?_, holds_of_isReady hflow hp hready⟩
    obtain ⟨event, earlier, hjournal, hpulse⟩ := pending_account _ _ _ hpending
    unfold justDelivered at hlast
    rw [hjournal] at hlast
    cases event with
    | delivered _ _ _ _ => cases hlast
    | _ => cases hpulse
  · obtain ⟨_, record, hrecord, _, hkind⟩ := hp
    unfold componentOf? at hcatch
    cases hs : e.instance? t.instanceId with
    | none =>
      rw [hs] at hcatch
      cases hcatch
    | some s =>
      rw [hs, Option.bind_some, hflow s hs, hrecord] at hcatch
      exact absurd (Option.some.inj hcatch) hkind

/-! ## 4. Every change -/

/-- **Whatever stands in a pulse slot is on the account**, and no component fires without a pulse:
    for every instance that ever began. -/
structure Backed (e : Engine) : Prop where
  told : ∀ i s, e.instance? i = some s → lastFlow i e.lives = some s.flow
  backs : ∀ i flow c, lastFlow i e.lives = some flow → e.definition.Pulsed flow c →
    Backs (e.definition.pulseSlots flow c)
      (account i c (e.definition.pulseSlots flow c) e.journal) (e.Holds i)

namespace Backed

variable {e e' : Engine} (h : e.Backed)
include h

theorem flow_eq {i : InstanceId} {flow : Nat} (hlast : lastFlow i e.lives = some flow)
    (s : Instance) (hs : e.instance? i = some s) : s.flow = flow :=
  Option.some.inj ((h.told i s hs).symm.trans hlast)

/-- A change without a beginning keeps the accounts if it keeps each one. -/
theorem of_old (hd : e'.definition = e.definition)
    (hl : ∀ i, lastFlow i e'.lives = lastFlow i e.lives)
    (hs : ∀ i s', e'.instance? i = some s' → ∃ s, e.instance? i = some s ∧ s'.flow = s.flow)
    (hb : ∀ i flow c slots, lastFlow i e.lives = some flow → e.definition.Pulsed flow c →
      slots = e.definition.pulseSlots flow c →
      Backs slots (account i c slots e.journal) (e.Holds i) →
      Backs slots (account i c slots e'.journal) (e'.Holds i)) : e'.Backed where
  told i s' hs' := by
    obtain ⟨s, hs, hflow⟩ := hs i s' hs'
    rw [hl, hflow]
    exact h.told i s hs
  backs i flow c hlast hp := by
    rw [hl] at hlast
    rw [hd] at hp ⊢
    exact hb i flow c _ hlast hp rfl (h.backs i flow c hlast hp)

/-- The value of a connection that gets a component queued. -/
theorem firing (hcons : e.definition.Consistent) {j : InstanceId} {conn : Connection}
    {held v : Value} {t : Instance} {queue : TaskQueue} (ht : e.instance? j = some t)
    (hheld : t.values[conn.targetInput.toNat]? = some held) (hw : e.IsWire j conn)
    (hr : (e.arrival j conn.targetInput.toNat conn.targetComponent.toNat held v).isReady j
      conn.targetComponent.toNat = true) {i : InstanceId} {flow c : Nat} {slots : List Nat}
    (hlast : lastFlow i e.lives = some flow) (hp : e.definition.Pulsed flow c)
    (hslots : slots = e.definition.pulseSlots flow c)
    (hb : Backs slots (account i c slots e.journal) (e.Holds i)) :
    Backs slots (account i c slots (e.firing j conn held v queue).journal)
      ((e.firing j conn held v queue).Holds i) := by
  have hcalm := calm_arrival e j conn.targetInput.toNat conn.targetComponent.toNat held v
  have hoffer := backs_offerSlot hb j conn.targetInput.toNat held v
  have hpushed : Backs slots
      (Account.enter i c slots (.pushed ⟨j, conn.targetComponent.toNat, false⟩)
        (Account.enter i c slots
          (.delivered j conn.targetInput.toNat conn.targetComponent.toNat v)
          (account i c slots (e.offerSlot j conn.targetInput.toNat held v).journal)))
      ((e.firing j conn held v queue).Holds i) := by
    by_cases htarget : j = i ∧ conn.targetComponent.toNat = c
    · obtain ⟨rfl, rfl⟩ := htarget
      have hready : ∃ n ∈ slots,
          (e.arrival j conn.targetInput.toNat conn.targetComponent.toNat held v).Holds j n := by
        rw [hslots, ← hcalm.definition]
        refine holds_of_isReady (fun s' hs' => ?_) (hcalm.definition ▸ hp) hr
        obtain ⟨s, hs, he⟩ := hcalm.back hs'
        rw [Instance.flow_of_frame he, h.flow_eq hlast s hs]
      refine hoffer.fire (fun n hn => ?_) hready fun n hn => ?_
      · rcases holds_arrival ht hheld hn with ⟨_, hnew⟩ | ⟨hne, hold⟩
        · exact Or.inl hnew
        · exact Or.inr ⟨fun heq => hne ⟨rfl, heq⟩, hold⟩
      · obtain ⟨hn, hne⟩ := holds_firing hn
        refine ⟨hn, fun hmem heq => ?_⟩
        rw [hslots] at hmem
        exact hne (isSequence_of_isWire (h.flow_eq hlast) hcons hw hmem) ⟨rfl, heq⟩
    · have harrive := hoffer.arrive c conn.targetComponent.toNat fun n
          (hn : (e.arrival j conn.targetInput.toNat conn.targetComponent.toNat held v).Holds i n) =>
        (holds_arrival ht hheld hn).imp_right And.right
      refine (harrive.push fun hfiring => absurd ?_ htarget).anti fun n _ hn =>
        (holds_firing hn).1
      simpa [Event.isFiring] using hfiring
  generalize (e.firing j conn held v queue).Holds i = P at hpushed ⊢
  unfold Engine.firing
  dsimp only
  split
  · exact backs_clearSlot hpushed _ _
  · exact hpushed

end Backed

/-- **Every touch keeps the accounts.** -/
theorem Touch.backed {e e' : Engine} (ht : Touch True e e') (hi : Inv True e)
    (hcons : e.definition.Consistent) (h : e.Backed) : e'.Backed := by
  have hcalm := ht.calm
  refine h.of_old hcalm.definition (fun i => by rw [hcalm.lives]) (fun i s' hs' => ?_) ?_
  · obtain ⟨s, hs, he⟩ := hcalm.back hs'
    exact ⟨s, hs, Instance.flow_of_frame he⟩
  intro i flow c slots hlast hp hslots hb
  cases ht with
  | @note event hl ht => exact hb.quiet (by cases event <;> first | rfl | cases hl) ht
  | aside _ hf _ hj _ =>
    rw [hj]
    refine hb.anti fun n _ hn => ?_
    obtain ⟨s, hs, hd⟩ := hn
    exact ⟨s, (congrArg (Forest.get? · i) hf).symm.trans hs, hd⟩
  | @write j slot v hv =>
    refine hb.anti fun n hn ⟨s', hs', hd⟩ => ?_
    obtain ⟨s, hs, ⟨rfl, rfl⟩ | ⟨_, rfl⟩⟩ := instance?_modify_cases hs'
    · rw [isDefined_setValue] at hd
      split at hd
      · next hslot =>
        rcases (hv trivial).2 with rfl | hlocal
        · cases hd
        · rw [hslots, ← h.flow_eq hlast s hs] at hn
          have hlt := lt_inputCount_of_mem (hi.fits i s hs) hn
          exact absurd (hslot.1 ▸ hlt) (Nat.not_lt.mpr (hlocal s hs))
      · exact ⟨s, hs, hd⟩
    · exact ⟨s', hs, hd⟩
  | @progress j component p _ =>
    exact hb.anti fun n _ hn => holds_modify (·.setProgress component p) (fun _ => rfl) hn
  | fail =>
    exact hb.anti fun n _ hn => holds_modify (fun s => { s with failed := true }) (fun _ => rfl) hn
  | push _ ht =>
    refine hb.push fun hfiring => ?_
    rw [hslots]
    exact ht.pulse (h.flow_eq hlast) hp hfiring
  | drop _ _ => exact hb
  | @arrive j slot target held v t ht hheld _ =>
    exact (backs_offerSlot hb j slot held v).arrive c target fun n hn =>
      (holds_arrival ht hheld hn).imp_right And.right
  | fire ht hheld _ hw hr _ => exact h.firing hcons ht hheld hw hr hlast hp hslots hb
  | settle hgone =>
    refine hb.settle ?_
    rintro ⟨rfl, rfl⟩ n hn ⟨s, hs, hd⟩
    have hflow := h.flow_eq hlast s hs
    rw [hslots, ← hflow, ← sequenceInputs_eq hs] at hn
    rw [hgone s hs n hn] at hd
    cases hd

/-- Marks change neither the flow of an instance nor what its slots hold. -/
theorem instance?_mark_values {e : Engine} {i j : InstanceId} {component : Nat} {waits : Bool}
    {s' : Instance} (hs' : (if i = j then (e.instance? j).map (·.mark component waits)
      else e.instance? i) = some s') :
    ∃ s, e.instance? i = some s ∧ s'.flow = s.flow ∧ s'.values = s.values := by
  split at hs'
  · next hij =>
    obtain ⟨s, hs, rfl⟩ := Option.map_eq_some_iff.mp hs'
    have he := s.mark_eq component waits
    exact ⟨s, hij ▸ hs, congrArg (·.flow) he, congrArg (·.values) he⟩
  · exact ⟨s', hs', rfl, rfl⟩

/-- When an instance begins, its components have no pulses and no firings. -/
theorem Backed.begun {e : Engine} (h : e.Backed) (hi : Inv True e) {flow : Nat} {f : Flow}
    {parent : Option (InstanceId × Nat)} {isAction : Bool}
    (hf : e.definition.flows[flow]? = some f)
    (hp : ∀ p, parent = some p → e.forest.contains p.1 = true) (ha : isAction = parent.isSome) :
    (e.begun flow f parent isAction).Backed := by
  have hi' := inv_begun hi hf hp ha
  refine ⟨fun i s' hs' => ?_, fun i flow' c hlast hp' => ?_⟩
  · rw [lives_begun, lastFlow]
    rcases instance?_begun_cases hi.sound hp ha hs' with ⟨rfl, rfl⟩ | ⟨hne, s, l, hs, rfl⟩
    · exact if_pos rfl
    · rw [if_neg (Ne.symm hne)]
      exact h.told i s hs
  · rw [lives_begun, lastFlow] at hlast
    have hbirth {found : Reading} :
        Event.isBirth i (@Event.created (e.nextId flow f parent isAction) flow found)
        = decide (e.nextId flow f parent isAction = i) := by
      unfold Event.isBirth
      rfl
    split at hlast
    · next hnew =>
      have hempty : account i c (e.definition.pulseSlots flow' c)
          (e.begun flow f parent isAction).journal = {} :=
        if_pos (hbirth.trans (decide_eq_true hnew))
      refine ⟨congrArg Account.stray hempty, fun slot hslot ⟨s', hs', hd⟩ => ?_⟩
      rcases instance?_begun_cases hi.sound hp ha hs' with ⟨_, rfl⟩ | ⟨hne, _⟩
      · obtain rfl := Option.some.inj hlast
        have hlt := lt_inputCount_of_mem (hi'.fits i _ hs') hslot
        rw [isDefined_freshInstance hlt] at hd
        cases hd
      · exact absurd hnew.symm hne
    · next hold =>
      refine ((h.backs i flow' c hlast hp').quiet (hbirth.trans (decide_eq_false hold)) rfl).anti ?_
      rintro slot _ ⟨s', hs', hd⟩
      rcases instance?_begun_cases hi.sound hp ha hs' with ⟨hnew, _⟩ | ⟨_, s, l, hs, rfl⟩
      · exact absurd hnew.symm hold
      · exact ⟨s, hs, hd⟩

/-- A mark that is set or taken away, and told, keeps the accounts. -/
theorem Backed.mark {e : Engine} (h : e.Backed) {event : Event} (hm : event.isMark = true)
    (j : InstanceId) (component : Nat) (b : Bool)
    (hd : ((e.record event).markAsync j component b).definition = e.definition) :
    ((e.record event).markAsync j component b).Backed := by
  have hinstance {i : InstanceId} {s' : Instance}
      (hs' : ((e.record event).markAsync j component b).instance? i = some s') :
      ∃ s, e.instance? i = some s ∧ s'.flow = s.flow ∧ s'.values = s.values := by
    rw [instance?_markAsync] at hs'
    exact instance?_mark_values hs'
  have hlife : event.isLife = true := by cases event <;> first | rfl | cases hm
  refine h.of_old hd (fun i => ?_) (fun i s' hs' => ?_) ?_
  · rw [lives_markAsync, lives_record hlife]
    cases event <;> first | rfl | cases hm
  · obtain ⟨s, hs, hflow, _⟩ := hinstance hs'
    exact ⟨s, hs, hflow⟩
  · intro i flow c slots _ _ _ hb
    have hquiet : Backs slots (account i c slots (e.record event).journal) (e.Holds i) :=
      hb.quiet (by cases event <;> first | rfl | cases hm)
        (by cases event <;> first | rfl | cases hm)
    refine (backs_markAsync hquiet j component b).anti fun n _ ⟨s', hs', hn⟩ => ?_
    obtain ⟨s, hs, _, hvalues⟩ := hinstance hs'
    refine ⟨s, hs, ?_⟩
    unfold isDefined at hn ⊢
    rwa [← hvalues]

/-- The end of an instance keeps the accounts. -/
theorem Backed.buried {e : Engine} (h : e.Backed) {j : InstanceId} {t : Instance} {forest : Forest}
    (hr : e.forest.remove j = some (t, forest)) : (e.buried j forest).Backed := by
  refine h.of_old rfl (fun i => ?_) (fun i s' hs' => ?_) ?_
  · rw [lives_buried]
    rfl
  · obtain ⟨_, s, l, hs, rfl⟩ := Forest.get?_remove_children hr hs'
    exact ⟨s, hs, rfl⟩
  · intro i flow c slots _ _ _ hb
    refine (hb.quiet rfl rfl).anti fun n _ ⟨s', hs', hn⟩ => ?_
    obtain ⟨_, s, l, hs, rfl⟩ := Forest.get?_remove_children hr hs'
    exact ⟨s, hs, hn⟩

/-- **Every change keeps the accounts.** -/
theorem Change.backed {e e' : Engine} (hc : Change True e e') (hi : Inv True e)
    (hcons : e.definition.Consistent) (h : e.Backed) : e'.Backed := by
  have hd := hc.definition
  cases hc with
  | touch ht => exact ht.backed hi hcons h
  | @await child j component _ => exact h.mark rfl j component true hd
  | release child j component => exact h.mark rfl j component false hd
  | begin hf hp ha => exact h.begun hi hf hp ha
  | bury hr _ => exact h.buried hr
  | echo _ _ =>
    refine h.of_old rfl (fun i => ?_) (fun i s hs => ⟨s, hs, rfl⟩) fun i flow c slots _ _ _ hb => ?_
    · rw [lives_echoed]
      rfl
    · exact hb.quiet rfl rfl

theorem Changes.backed {e e' : Engine} (hc : Changes True e e') (hi : Inv True e)
    (hcons : e.definition.Consistent) (h : e.Backed) : e'.Backed := by
  have hkept : e'.definition.Consistent ∧ e'.Backed := by
    refine hc.preserves (P := fun e => e.definition.Consistent ∧ e.Backed) ?_ hi ⟨hcons, h⟩
    rintro e e' hi hchange ⟨hcons, h⟩
    exact ⟨hchange.definition.symm ▸ hcons, hchange.backed hi hcons h⟩
  exact hkept.2

/-! ## 5. Every run -/

/-- Nothing is on any account when a run begins. -/
theorem backed_build {d : Definition} {config : Config} {dispatcher : Dispatcher} {host : Host}
    {e₀ : Engine} (hb : build d config dispatcher host = .ok e₀) : e₀.Backed := by
  obtain ⟨_, rfl⟩ := build_eq_ok_iff.mp hb
  constructor
  · intro i s hs
    rw [instance?_built] at hs
    cases hs
  · intro i flow c hlast
    cases hlast

/-- **How often a component is queued for the pulses that came to it**: under a harmless host, where
    wires carry pulses just if they end in pulse slots, at every moment of every run and for every
    instance that ever began. No firing is a stray one: each is made by a pulse that comes and is
    used up, or for one pulse that waited, or it repeats a firing while pulses stay that have fired.
    There are no more firings than pulses if and only if there are no more of the last kind than
    pulses that have not fired. -/
theorem firings_after {d : Definition} {config : Config} {dispatcher : Dispatcher} {host : Host}
    {e₀ : Engine} (hb : build d config dispatcher host = .ok e₀) (hcons : d.Consistent)
    (hh : host.Harmless) :
    (∀ moves : List Move, (∀ m ∈ moves, m.IsHarmless) → Changes True e₀ (e₀.after moves))
    ∧ ∀ e, Changes True e₀ e → ∀ i flow c,
      lastFlow i e.lives = some flow → d.Pulsed flow c →
      ∃ a, a = account i c (d.pulseSlots flow c) e.journal
        ∧ firings i c e.journal = a.direct + a.resumed + a.repeated
        ∧ pulses i (d.pulseSlots flow c) e.journal = a.direct + a.resumed + a.unfired
        ∧ (firings i c e.journal ≤ pulses i (d.pulseSlots flow c) e.journal
          ↔ a.repeated ≤ a.unfired) := by
  have h₀ : Inv True e₀ := inv_build hb fun _ => hh
  have hd₀ : e₀.definition = d := congrArg Engine.definition (build_eq_ok_iff.mp hb).2
  refine ⟨fun moves hm => (course_after h₀ moves fun _ => hm).changes h₀, ?_⟩
  intro e hc i flow c hlast hp
  have hd : e.definition = d := hc.definition.trans hd₀
  have hbacked := (hc.backed h₀ (hd₀ ▸ hcons) (backed_build hb)).backs i flow c hlast (hd ▸ hp)
  rw [hd] at hbacked
  have hfired := fired_account i c (d.pulseSlots flow c) e.journal
  have hreceived := received_account i c (d.pulseSlots flow c) e.journal
  have hstray := hbacked.stray_eq
  refine ⟨_, rfl, ?_⟩
  generalize account i c (d.pulseSlots flow c) e.journal = a at hfired hreceived hstray ⊢
  unfold Account.fired at hfired
  unfold Account.received at hreceived
  refine ⟨by omega, hreceived.symm, ?_⟩
  omega

/-- A flow whose last component waits for a pulse and for a value; the pulse comes first, and then
    two others bring the value. -/
def twoValuesDefinition : Definition :=
  { constants := [.undefined, .null, .int 7]
    flows :=
      [{ name := "main", inputFlags := [1, 0]
         components :=
          [{ kind := .start, outputs := [{ isSequence := true, connections := [⟨3, 0, true⟩] }] },
           { kind := .evalExpr, properties := [{ instructions := [2, 0, 0, 224] }]
             outputs := [{ isSequence := true }, { connections := [⟨3, 1, false⟩] }] },
           { kind := .evalExpr, properties := [{ instructions := [2, 0, 0, 224] }]
             outputs := [{ isSequence := true }, { connections := [⟨3, 1, false⟩] }] },
           { kind := .log, inputs := [0, 1], properties := [{ instructions := [2, 0, 0, 224] }]
             outputs := [{ isSequence := true }] }] }] }

/-- The flow is started, and its first three components run. -/
def twoValuesMoves : List Move := [.order ⟨.startFlow 0, none⟩, .tick none]

def twoValuesBrought : Engine := (built twoValuesDefinition {} .absent {}).after twoValuesMoves

theorem consistent_twoValues : twoValuesDefinition.Consistent := by
  unfold Definition.Consistent
  decide

theorem pulsed_twoValues : twoValuesDefinition.Pulsed 0 3 :=
  ⟨by decide, _, rfl, by decide, by decide⟩

theorem isHarmless_twoValuesMoves : ∀ m ∈ twoValuesMoves, m.IsHarmless := by
  intro m hm
  rcases List.mem_cons.mp hm with rfl | hm
  · trivial
  · rw [List.mem_singleton.mp hm]
    trivial

/-- The last component fires twice for the one pulse that came: it fires a second time when nothing
    but a pulse that has fired stays. -/
theorem firings_after_twoValues :
    build twoValuesDefinition {} .absent {} = .ok (built twoValuesDefinition {} .absent {})
    ∧ Changes True (built twoValuesDefinition {} .absent {}) twoValuesBrought
    ∧ ∃ a : Account,
        firings ⟨0, 0⟩ 3 twoValuesBrought.journal = a.direct + a.resumed + a.repeated
        ∧ a.unfired < a.repeated := by
  have hb : build twoValuesDefinition {} .absent {}
      = .ok (built twoValuesDefinition {} .absent {}) := rfl
  have h := firings_after hb consistent_twoValues Host.harmless_empty
  have hchanges : Changes True (built twoValuesDefinition {} .absent {}) twoValuesBrought :=
    h.1 twoValuesMoves isHarmless_twoValuesMoves
  have hlast : lastFlow ⟨0, 0⟩ twoValuesBrought.lives = some 0 := by decide +kernel
  have hfirings : firings ⟨0, 0⟩ 3 twoValuesBrought.journal = 2 := by decide +kernel
  have hpulses : pulses ⟨0, 0⟩ (twoValuesDefinition.pulseSlots 0 3) twoValuesBrought.journal
      = 1 := by decide +kernel
  obtain ⟨a, _, hfired, _, hiff⟩ := h.2 _ hchanges ⟨0, 0⟩ 0 3 hlast pulsed_twoValues
  refine ⟨hb, hchanges, a, hfired, Nat.lt_of_not_le fun hle => ?_⟩
  have hle := hiff.mpr hle
  omega

/-- Not every component fires at most once for each pulse. -/
theorem not_firings_le_pulses :
    ¬ ∀ (d : Definition) (e₀ : Engine) (moves : List Move) (i : InstanceId) (flow c : Nat),
      build d {} .absent {} = .ok e₀ → d.Consistent → (∀ m ∈ moves, m.IsHarmless) →
      lastFlow i (e₀.after moves).lives = some flow → d.Pulsed flow c →
      firings i c (e₀.after moves).journal
        ≤ pulses i (d.pulseSlots flow c) (e₀.after moves).journal := by
  intro h
  have hle := h twoValuesDefinition _ twoValuesMoves ⟨0, 0⟩ 0 3 rfl consistent_twoValues
    isHarmless_twoValuesMoves (by decide +kernel) pulsed_twoValues
  revert hle
  decide +kernel

end Engine

end InstrumentFlow
