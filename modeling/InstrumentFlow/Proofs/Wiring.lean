import InstrumentFlow.Proofs.Validity
import InstrumentFlow.Proofs.Wiring.Found

/-!
# Wiring and queue of a sound definition

The checks of a definition look at connections, inputs and call targets once, before anything runs.
They are enough for every later look-up: of the component of a queued task, of the slot at the end
of a connection, of the flow of an instance.

* `Definition.wire_lt` -- a sound definition has no loose connections;
* `Engine.WiredUp`, `wiredUp_of_inv` -- so no instance has any, in the middle of a step either;
* `Brings`, `deliverAll_of_wires` -- a value that is sent comes to the end of every connection;
* `discarded_runTasks` -- no turn is wasted on a task whose instance is gone;
* `wiring_sound_between` -- in every run no look-up fails.
-/

namespace InstrumentFlow

/-! ## 1. Sound definitions -/

/-- A sound definition has no component with a flaw. -/
theorem Definition.flaw?_eq_none {d : Definition} (hv : d.validate = .ok ()) {n : Nat} {f : Flow}
    (hf : d.flows[n]? = some f) {component : Nat} {record : Component}
    (hr : f.components[component]? = some record) : record.flaw? d.flows.length f = none :=
  (Definition.validate_eq_ok_iff.mp hv).2.2 f (List.mem_of_getElem? hf) record
    (List.mem_of_getElem? hr)

/-- **A sound definition has no loose connections.** -/
theorem Definition.wire_lt {d : Definition} (hv : d.validate = .ok ()) {n : Nat} {f : Flow}
    (hf : d.flows[n]? = some f) {component : Nat} {record : Component}
    (hr : f.components[component]? = some record) {out : Output} (ho : out ∈ record.outputs)
    {c : Connection} (hc : c ∈ out.connections) :
    c.targetComponent.toNat < f.components.length ∧ c.targetInput.toNat < f.inputCount := by
  have hflaw := Definition.flaw?_eq_none hv hf hr
  obtain ⟨_, _, _, hwires, _⟩ := Component.flaw?_eq_none_iff.mp hflaw
  exact Component.connectionFlaw?_eq_none_iff.mp hwires out ho c hc

namespace Engine

/-! ## 2. Instances -/

/-- **An instance is wired up**: its flow is one of the definition, its inputs are among its slots,
    and every connection of its flow leads to a component and to an input. -/
structure WiredUp (e : Engine) (i : InstanceId) (s : Instance) : Prop where
  flow : s.flow < e.definition.flows.length
  inputs : s.inputCount ≤ s.values.size
  slot : ∀ c, e.IsWire i c → c.targetInput.toNat < s.inputCount
  component : ∀ c, e.IsWire i c →
    ∃ record, e.componentRecord s.flow c.targetComponent.toNat = .ok record

theorem componentRecord_eq_ok_iff {e : Engine} {flow component : Nat} {record : Component} :
    e.componentRecord flow component = .ok record
      ↔ e.definition.component? flow component = some record := by
  unfold componentRecord
  split
  · next c hc => rw [hc, Except.ok.injEq, Option.some.injEq]
  · next hc => simp [hc]

section

variable {closed : Prop} {e : Engine} {i : InstanceId} {s : Instance} (hi : Inv closed e)
  (hs : e.instance? i = some s)
include hi hs

/-- **With a sound definition every instance is wired up.** -/
theorem wiredUp_of_inv (hv : e.definition.validate = .ok ()) : e.WiredUp i s := by
  obtain ⟨f, hf, hcount, hsize, _⟩ := (hi.fits i s hs).flow
  have hwire (c : Connection) (hw : e.IsWire i c) :
      c.targetComponent.toNat < f.components.length ∧ c.targetInput.toNat < f.inputCount := by
    obtain ⟨component, record, hrecord, out, hout, hc⟩ := hw
    rw [componentOf?_flowOf hs] at hrecord
    unfold flowOf at hrecord
    rw [hf, Option.getD_some] at hrecord
    exact Definition.wire_lt hv hf hrecord hout hc
  refine ⟨(List.getElem?_eq_some_iff.mp hf).1, by omega, fun c hc => ?_, fun c hc => ?_⟩
  · rw [hcount]
    exact (hwire c hc).2
  · refine ⟨f.components.get ⟨c.targetComponent.toNat, (hwire c hc).1⟩,
      componentRecord_eq_ok_iff.mpr ?_⟩
    unfold Definition.component?
    rw [hf, Option.bind_some]
    exact List.getElem?_eq_getElem _

/-- The end of a connection is a slot of the instance. -/
theorem held_of_isWire (hv : e.definition.validate = .ok ()) {c : Connection} (hc : e.IsWire i c) :
    ∃ held, s.values[c.targetInput.toNat]? = some held := by
  have hwired := wiredUp_of_inv hi hs hv
  have hlt : c.targetInput.toNat < s.values.size :=
    Nat.lt_of_lt_of_le (hwired.slot c hc) hwired.inputs
  exact ⟨_, Array.getElem?_eq_getElem hlt⟩

end

/-! ## 3. Connections -/

/-- Where a value comes to: the instance, the slot and the component that reads it. -/
abbrev Delivery := InstanceId × Nat × Nat × Value

/-- What came to the end of a connection by an event. -/
def delivery? : Event → Option Delivery
  | .delivered i slot target v => some (i, slot, target, v)
  | _ => none

/-- **What came to the ends of connections** in the meantime, in order. -/
def Brings (ds : List Delivery) (e e' : Engine) : Prop :=
  ∃ news, e'.journal = news ++ e.journal ∧ news.reverse.filterMap delivery? = ds

namespace Brings

theorem refl (e : Engine) : Brings [] e e := ⟨[], rfl, rfl⟩

theorem trans {ds ds' : List Delivery} {e e' e'' : Engine} (h : Brings ds e e')
    (h' : Brings ds' e' e'') : Brings (ds ++ ds') e e'' := by
  obtain ⟨news, hj, hd⟩ := h
  obtain ⟨news', hj', hd'⟩ := h'
  refine ⟨news' ++ news, by rw [hj', hj, List.append_assoc], ?_⟩
  rw [List.reverse_append, List.filterMap_append, hd, hd']

theorem record (e : Engine) (event : Event) :
    Brings (delivery? event).toList e (e.record event) := by
  refine ⟨[event], rfl, ?_⟩
  cases h : delivery? event <;> simp [h]

/-- Nothing came where no such event is told of. -/
theorem of_adds {e e' : Engine} (h : Adds (fun event => (delivery? event).isSome) e e') :
    Brings [] e e' := by
  obtain ⟨news, hj, hn⟩ := h
  refine ⟨news, hj, List.filterMap_eq_nil_iff.mpr fun event he => ?_⟩
  simpa using hn event (List.mem_reverse.mp he)

theorem clearSlot (e : Engine) (i : InstanceId) (slot : Nat) :
    Brings [] e (e.clearSlot i slot) := by
  refine of_adds ?_
  unfold Engine.clearSlot
  split
  · split
    · exact .refl e
    · exact .record e rfl
  · exact .refl e

theorem clearSlots (e : Engine) (i : InstanceId) (slots : List Nat) :
    Brings [] e (slots.foldl (fun e slot => e.clearSlot i slot) e) := by
  induction slots generalizing e with
  | nil => exact refl e
  | cons slot slots ih => exact (clearSlot e i slot).trans (ih _)

theorem arrival (e : Engine) (i : InstanceId) (slot target : Nat) (held v : Value) :
    Brings [(i, slot, target, v)] e (e.arrival i slot target held v) := by
  have hoffer : Adds (fun event => (delivery? event).isSome) e (e.offerSlot i slot held v) := by
    unfold offerSlot
    split
    · exact .refl e
    · exact .record e rfl
    · exact .record e rfl
  exact (of_adds hoffer).trans (record _ (.delivered i slot target v))

theorem ping (e : Engine) (i : InstanceId) (component : Nat) :
    Brings [] e (e.ping i component).2 := by
  refine of_adds ?_
  rcases ping_cases e i component with ⟨queue, _, _, he⟩ | he | ⟨_, he⟩
  · rw [he]
    exact .record e rfl
  · rw [he]
    exact .refl e
  · rw [he]
    exact ⟨[.stopAsked, .failed i component _, .refused _], rfl, by simp [delivery?]⟩

end Brings

section

variable {e : Engine} {i : InstanceId} (hi : Inv False e)
  (hv : e.definition.validate = .ok ()) (hl : e.instance? i ≠ none)
include hi hv hl

/-- **A value comes to the end of a connection.** -/
theorem ends_deliver {c : Connection} (hc : e.IsWire i c) (v : Value) :
    Ends (fun _ => False) (fun _ e' => Strokes False untouched e e'
      ∧ Brings [(i, c.targetInput.toNat, c.targetComponent.toNat, v)] e e')
      (deliver i v c) e := by
  obtain ⟨s, hs⟩ := Option.ne_none_iff_exists'.mp hl
  obtain ⟨held, hheld⟩ := held_of_isWire hi hs hv hc
  have hstrokes : Upholds (Strokes False untouched e) (fun _ _ => True) (deliver i v c) e :=
    upholds_deliver .refl False.elim hc
  have hok : ∃ e', deliver i v c e = .ok ⟨⟩ e'
      ∧ Brings [(i, c.targetInput.toNat, c.targetComponent.toNat, v)] e e' := by
    unfold deliver
    rw [get_bind_apply]
    dsimp only
    rw [hs]
    dsimp only
    rw [hheld]
    refine ⟨_, rfl, ?_⟩
    have harrival := Brings.arrival e i c.targetInput.toNat c.targetComponent.toNat held v
    have hping := harrival.trans (Brings.ping
      (e.arrival i c.targetInput.toNat c.targetComponent.toNat held v) i c.targetComponent.toNat)
    split
    · exact hping.trans (Brings.clearSlot _ _ _)
    · exact hping
  obtain ⟨e', he, hd⟩ := hok
  unfold Ends
  rw [he]
  exact ⟨(hstrokes.of_ok he).1, hd⟩

/-- **A value comes to the ends of connections**, in order. -/
theorem ends_deliverAll {cs : List Connection} (hc : ∀ c ∈ cs, e.IsWire i c) (v : Value) :
    Ends (fun _ => False) (fun _ e' => Brings (cs.map fun c =>
      (i, c.targetInput.toNat, c.targetComponent.toNat, v)) e e') (deliverAll i v cs) e := by
  induction cs generalizing e with
  | nil => exact Brings.refl e
  | cons c cs ih =>
    refine ends_bind (ends_deliver hi hv hl (hc c List.mem_cons_self) v) fun _ e₁ hfirst => ?_
    obtain ⟨hstrokes, hfirst⟩ := hfirst
    have hcalm := hstrokes.calm
    -- after the first delivery the instance has the same connections
    have hrest := ih (hstrokes.inv hi) (hcalm.definition ▸ hv)
      (fun hn => hl (hcalm.none_iff.mp hn))
      fun c' hc' => (isWire_calm hcalm i c').mpr (hc c' (List.mem_cons_of_mem c hc'))
    exact hrest.mono (fun _ => id) fun _ e₂ hd => hfirst.trans hd

end

/-- **What comes of a value that is sent** out of an output: nothing while a stop is pending or where
    it cannot be read, and else it comes, as it was read, to the end of every connection, in
    order. -/
def SendsToAll (e : Engine) (i : InstanceId) (component output : Nat) (out : Output)
    (v : Value) : Prop :=
  Ends (Brings [] e) (fun _ e' => (e.isStopped = true ∧ e' = e)
    ∨ ∃ w, Brings (out.connections.map fun c =>
        (i, c.targetInput.toNat, c.targetComponent.toNat, w)) e e')
    (propagate i component output v) e

theorem sendsToAll_of_inv {e : Engine} (hi : Inv False e) (hv : e.definition.validate = .ok ())
    {i : InstanceId} {s : Instance} (hs : e.instance? i = some s) {component output : Nat}
    {record : Component} (hr : e.componentOf? i component = some record) {out : Output}
    (ho : record.outputs[output]? = some out) (v : Value) :
    e.SendsToAll i component output out v := by
  unfold SendsToAll propagate
  refine ends_get ?_
  split
  · next hstop => exact Or.inl ⟨(Bool.or_comm _ _).trans hstop, rfl⟩
  have hreset : Strokes False untouched e (if e.executing = some (i, component) then
      e.resetSequenceInputs i component else e) := by
    split
    · exact strokes_resetSequenceInputs .refl i component
    · exact .refl
  have hquiet : Brings [] e (if e.executing = some (i, component) then
      e.resetSequenceInputs i component else e) := by
    split
    · exact Brings.clearSlots e i _
    · exact .refl e
  generalize (if e.executing = some (i, component) then
    e.resetSequenceInputs i component else e) = e₁ at hreset hquiet ⊢
  -- the pulses of the component are used up, and it has the same connections
  have hsent := strokes_record hreset (.sent i component output v) rfl rfl rfl
  have hquiet := hquiet.trans (.record e₁ (.sent i component output v))
  have hr₁ : e₁.componentOf? i component = some record :=
    (componentOf?_calm hreset.calm i component).trans hr
  obtain ⟨s₁, hs₁, _⟩ := hreset.calm.forth hs
  have hrecord : e₁.componentRecord s₁.flow component = .ok record := by
    rw [componentOf?_of_live hs₁] at hr₁
    cases h : e₁.componentRecord s₁.flow component with
    | ok c => rw [h] at hr₁; exact congrArg Except.ok (Option.some.inj hr₁)
    | error err => rw [h] at hr₁; cases hr₁
  have hwires (c : Connection) (hc : c ∈ out.connections) : e₁.IsWire i c :=
    ⟨component, record, hr₁, out, List.mem_of_getElem? ho, hc⟩
  show Ends _ _ _ (e₁.record (.sent i component output v))
  rw [hs₁]
  dsimp only
  rw [hrecord]
  dsimp only
  rw [ho]
  dsimp only
  have hread : Ends (Brings [] e) (fun _ e' => e' = e₁.record (.sent i component output v))
      (resolved .readPropagated v) (e₁.record (.sent i component output v)) := by
    unfold resolved
    refine ends_get ?_
    split
    · exact rfl
    · exact hquiet
  refine ends_bind hread fun w e₂ he₂ => ?_
  rw [he₂]
  have hall := ends_deliverAll (hsent.inv hi) (hsent.calm.definition ▸ hv)
    (e := e₁.record (.sent i component output v)) (i := i) ?_ hwires w
  · exact hall.mono (fun _ => False.elim) fun _ e' hd => Or.inr ⟨w, hquiet.trans hd⟩
  · rw [show (e₁.record (.sent i component output v)).instance? i = some s₁ from hs₁]
    exact Option.some_ne_none s₁

/-! ## 4. Ticks -/

section

variable {e : Engine}

/-- **No turn is wasted** on a task whose instance is gone. -/
theorem discarded_runTasks (hi : Inv False e) (hh : e.definition.Hostless) (ha : e.AllFound)
    (handler : Handler) (count : Nat) (allowance : Option Nat) (report : TickReport) :
    (runTasks handler count allowance report e).1.discarded = report.discarded := by
  -- along the turns: every state between them has the components of its tasks
  induction count generalizing allowance report e with
  | zero => rfl
  | succ count ih =>
    cases headway handler count allowance report e with
    | rest _ _ hd hr =>
      rw [hr]
      exact hd
    | drop hq hn _ => exact absurd hn (ha.allLive _ (hq ▸ List.mem_cons_self))
    | hold _ hr => rw [hr]
    | @run t ts hp hq _ hr =>
      have hblock : Leaps False True False e (e.debuggerBlocks t).2 :=
        leaps_debuggerBlocks hi .refl t
      have hh' : (e.debuggerBlocks t).2.definition.Hostless := hblock.definition hi ▸ hh
      have hrun : Leaps False True False e
          (((e.debuggerBlocks t).2.takeTask t).runTask handler t) :=
        hblock.tail (.task hh' ((stopRequested_debuggerBlocks e t).trans hp)
          ((tasks_debuggerBlocks e t).trans hq))
      rcases hr with ⟨_, hr⟩ | hr
      · rw [hr]
      · have ha' := hrun.preserves (fun _ _ hi hl ha => hl.allFound hi ha) hi ha
        rw [hr]
        exact ih (hrun.inv hi) (hrun.definition hi ▸ hh) ha' _ _

theorem discarded_tick (hi : Inv False e) (hh : e.definition.Hostless) (ha : e.AllFound)
    (handler : Handler) (allowance : Option Nat) :
    (e.tick handler allowance).1.discarded = 0 := by
  unfold tick
  split
  · exact discarded_runTasks hi hh ha handler e.queue.size allowance {}
  · rfl

/-- The turn of a task whose component is there is its step, or it is cleared away because its
    instance has failed. -/
theorem runTask_of_component (handler : Handler) {t : Task} {s : Instance} {c : Component}
    (hs : e.instance? t.instanceId = some s) (hc : e.componentRecord s.flow t.component = .ok c) :
    (e.takeTask t).runTask handler t
      = (if s.failed then (e.takeTask t).releaseProgress t.instanceId t.component
          else (e.takeTask t).runStep handler t c).tidy t.instanceId t.component := by
  unfold runTask
  rw [show (e.takeTask t).instance? t.instanceId = some s from hs]
  dsimp only
  rw [show (e.takeTask t).componentRecord s.flow t.component = .ok c from hc]
  dsimp only
  split <;> rfl

end

/-! ## 5. Every run -/

/-- **With a sound definition no look-up fails.** In every run of flows without components of the
    host, between calls and between the steps of a tick, every queued task names a live instance and
    a component of its flow. There and in the middle of every step, whatever follows, each instance
    is wired up, and what is sent out of an output comes to the end of every connection. So no turn
    fails for want of its component, and no tick discards a task. -/
theorem wiring_sound_between {d : Definition} {config : Config} {dispatcher : Dispatcher}
    {host : Host} {e₀ : Engine} (hb : build d config dispatcher host = .ok e₀) (hh : d.Hostless)
    (moves : List Move) (count : Nat) (allowance : Option Nat) (report : TickReport) {e : Engine}
    (he : e = (runTasks handler count allowance report (e₀.after moves)).2) :
    (∀ t ∈ e.queue.tasks, ∃ s c, e.instance? t.instanceId = some s
      ∧ e.componentRecord s.flow t.component = .ok c
      ∧ (e.takeTask t).runTask handler t
        = (if s.failed then (e.takeTask t).releaseProgress t.instanceId t.component
            else (e.takeTask t).runStep handler t c).tidy t.instanceId t.component)
    ∧ (∀ e', Course False e e' → ∀ i s, e'.instance? i = some s → e'.WiredUp i s
      ∧ ∀ component record output out v, e'.componentOf? i component = some record →
          record.outputs[output]? = some out → e'.SendsToAll i component output out v)
    ∧ ∀ allowance', (e.tick handler allowance').1.discarded = 0 := by
  have h₀ : Inv False e₀ := inv_build hb False.elim
  have hrun := leaps_amid hb hh moves count allowance report
  have hi : Inv False e := he ▸ hrun.inv h₀
  have hd : e.definition = d := by
    rw [he, hrun.definition h₀, (build_eq_ok_iff.mp hb).2]
    rfl
  have hfound : e.AllFound := he ▸ allFound_between hb hh moves count allowance report
  refine ⟨fun t ht => ?_, fun e' hcourse i s hs => ?_, fun allowance' => ?_⟩
  · obtain ⟨c, hc⟩ := Option.ne_none_iff_exists'.mp (hfound t ht)
    obtain ⟨s, hs⟩ := Option.ne_none_iff_exists'.mp (hfound.allLive t ht)
    have hrecord : e.componentRecord s.flow t.component = .ok c := by
      unfold componentOf? at hc
      rw [hs, Option.bind_some] at hc
      exact componentRecord_eq_ok_iff.mpr hc
    exact ⟨s, c, hs, hrecord, runTask_of_component handler hs hrecord⟩
  · have hi' := hcourse.inv hi
    have hv : e'.definition.validate = .ok () := by
      rw [(hcourse.changes hi).definition, hd]
      exact (build_eq_ok_iff.mp hb).1
    exact ⟨wiredUp_of_inv hi' hs hv, fun component record output out v hr ho =>
      sendsToAll_of_inv hi' hv hs hr ho v⟩
  · exact discarded_tick hi (hd ▸ hh) hfound handler allowance'

/-- A flow that calls a second one, which only calls a third one; that one ends while a task of it is
    still queued. -/
def endingDefinition : Definition :=
  { flows :=
      [{ name := "main", components := [{ kind := .callAction, payload := [1, 0] }] },
       { name := "middle", components := [{ kind := .callAction, payload := [2, 0] }] },
       { name := "inner", inputFlags := [1, 1]
         components :=
          [{ kind := .start
             outputs := [{ isSequence := true, connections := [⟨1, 0, true⟩, ⟨2, 1, true⟩] }] },
           { kind := .finish, inputs := [0] },
           { kind := .noop, inputs := [1] }] }] }

/-- The moves up to the tick in which the inner flow ends. -/
def endingMoves : List Move := [.order ⟨.startFlow 0, none⟩, .tick none, .tick none, .tick none]

/-- The state before that tick. -/
def ending : Engine := (built endingDefinition {} .absent {}).after endingMoves

/-- In that tick an instance is destroyed with its last task, which is dropped and not discarded. -/
theorem wiring_sound_between_ending :
    build endingDefinition {} .absent {} = .ok (built endingDefinition {} .absent {})
    ∧ endingDefinition.Hostless
    ∧ ending.queue.tasks = [⟨⟨2, 0⟩, 1, false⟩, ⟨⟨2, 0⟩, 2, false⟩]
    ∧ (∃ s c, ending.instance? ⟨2, 0⟩ = some s ∧ ending.componentRecord s.flow 2 = .ok c)
    ∧ (ending.tick handler none).1.executed = 1
    ∧ (ending.tick handler none).1.remaining = 0
    ∧ (ending.tick handler none).1.discarded = 0 := by
  have hb : build endingDefinition {} .absent {} = .ok (built endingDefinition {} .absent {}) := rfl
  have hh : endingDefinition.Hostless := by decide +kernel
  have htasks : ending.queue.tasks = [⟨⟨2, 0⟩, 1, false⟩, ⟨⟨2, 0⟩, 2, false⟩] := by decide +kernel
  have hstate : ending
      = (runTasks handler 0 none {} ((built endingDefinition {} .absent {}).after endingMoves)).2 :=
    rfl
  obtain ⟨hqueued, _, hdiscarded⟩ := wiring_sound_between hb hh endingMoves 0 none {} hstate
  obtain ⟨s, c, hs, hc, _⟩ := hqueued ⟨⟨2, 0⟩, 2, false⟩ (by simp [htasks])
  exact ⟨hb, hh, htasks, ⟨s, c, hs, hc⟩, by decide +kernel, by decide +kernel, hdiscarded none⟩

end Engine

end InstrumentFlow
