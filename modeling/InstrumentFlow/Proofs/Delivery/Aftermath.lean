import InstrumentFlow.Proofs.Engine.Slots
import InstrumentFlow.Proofs.Lasting.Unmoved
import InstrumentFlow.Proofs.Mirror.Sights

/-!
# What is different after a value was sent

A value that is sent changes slots of its own instance, and tasks of that instance join the queue.
Where the queue is full there is one fatal error, and from then on nothing joins.

* `Reports` -- the fatal errors that were reported in the meantime;
* `Undisturbed`, `Overflowed` -- the two ways in which the queue is left;
* `Aftermath` -- **what may be different**, with the slots and the components concerned;
* `Aftermath.trans`, `aftermath_clearSlot`, `aftermath_offerSlot`, `aftermath_ping` -- what there is
  of that.
-/

namespace InstrumentFlow

/-- An error that no component caught. -/
def Event.isFailure : Event → Bool
  | failed _ _ _ => true
  | _ => false

namespace Engine

/-! ## 1. Reports -/

/-- **The fatal errors that were reported in the meantime**, the latest first. -/
def Reports (failures : List Event) (e e' : Engine) : Prop :=
  ∃ news, e'.journal = news ++ e.journal ∧ news.filter Event.isFailure = failures

namespace Reports

variable {failures failures' : List Event} {e e' e'' : Engine}

theorem silent (hj : e'.journal = e.journal) : Reports [] e e' := ⟨[], hj, rfl⟩

theorem trans (h : Reports failures e e') (h' : Reports failures' e' e'') :
    Reports (failures' ++ failures) e e'' := by
  obtain ⟨news, hj, hn⟩ := h
  obtain ⟨news', hj', hn'⟩ := h'
  exact ⟨news' ++ news, by rw [hj', hj, List.append_assoc], by rw [List.filter_append, hn', hn]⟩

theorem record (e : Engine) {event : Event} (hb : event.isFailure = false) :
    Reports [] e (e.record event) := ⟨[event], rfl, by simp [hb]⟩

end Reports

/-! ## 2. The queue -/

/-- **Nothing went wrong** in the meantime. -/
structure Undisturbed (i : InstanceId) (e e' : Engine) : Prop where
  stopRequested : e'.stopRequested = e.stopRequested
  lastError : e'.lastError = e.lastError
  failed : (e'.instance? i).map (·.failed) = (e.instance? i).map (·.failed)
  reports : Reports [] e e'

/-- **The queue was full** for a task of one of the components: the instance has failed, that was
    reported once, and the run is to stop. -/
structure Overflowed (i : InstanceId) (targets : List Nat) (e e' : Engine) : Prop where
  going : e.stopRequested = false
  stopRequested : e'.stopRequested = true
  full : e'.queue.capacity ≤ e'.queue.size
  lastError : e'.lastError = some FlowError.queueFull.message
  failed : (e'.instance? i).map (·.failed) = (e.instance? i).map fun _ => true
  reports : ∃ c ∈ targets, Reports [.failed i c FlowError.queueFull.message] e e'

/-! ## 3. Aftermaths -/

/-- An instance but for what it keeps in its slots and for an error that left it. -/
def Instance.bearing (s : Instance) : Instance :=
  { s with failed := false, values := Array.replicate s.values.size .undefined }

/-- **What may be different after a value was sent** out of an instance: some of its slots, and at the
    end of the queue tasks of some of its components. -/
structure Aftermath (i : InstanceId) (slots targets : List Nat) (e e' : Engine) : Prop where
  /-- Global variables, storages and all else stay. -/
  rest : e' = { e with
    forest := e'.forest, queue := e'.queue, lastError := e'.lastError
    stopRequested := e'.stopRequested, journal := e'.journal, breakdown := e'.breakdown }
  /-- No instance begins or ends. -/
  calm : Calm e e'
  others : ∀ j, j ≠ i → e'.instance? j = e.instance? j
  /-- The progress of the components stays as well. -/
  bearing : (e'.instance? i).map Instance.bearing = (e.instance? i).map Instance.bearing
  content : ∀ n, n ∉ slots → e'.content? (.slot i n) = e.content? (.slot i n)
  tasks : ∃ ts, e'.queue = { e.queue with tasks := e.queue.tasks ++ ts }
    ∧ ∀ t ∈ ts, t.instanceId = i ∧ t.component ∈ targets ∧ t.continuous = false
  /-- Once a stop is pending no task joins the queue. -/
  quiet : e.stopRequested = true → e'.queue = e.queue
  outcome : Undisturbed i e e' ∨ Overflowed i targets e e'

namespace Aftermath

variable {i : InstanceId} {slots slots' targets targets' : List Nat} {e e' e'' : Engine}

theorem mono (h : Aftermath i slots targets e e') (hs : slots ⊆ slots')
    (ht : targets ⊆ targets') : Aftermath i slots' targets' e e' := by
  obtain ⟨ts, hq, hts⟩ := h.tasks
  refine ⟨h.rest, h.calm, h.others, h.bearing, fun n hn => h.content n fun hm => hn (hs hm),
    ⟨ts, hq, fun t hm => ⟨(hts t hm).1, ht (hts t hm).2.1, (hts t hm).2.2⟩⟩, h.quiet, ?_⟩
  refine h.outcome.imp_right fun ho => ?_
  obtain ⟨c, hc, hr⟩ := ho.reports
  exact ⟨ho.going, ho.stopRequested, ho.full, ho.lastError, ho.failed, c, ht hc, hr⟩

theorem refl (e : Engine) : Aftermath i slots targets e e where
  rest := rfl
  calm := Calm.refl e
  others _ _ := rfl
  bearing := rfl
  content _ _ := rfl
  tasks := ⟨[], by rw [List.append_nil], fun _ h => nomatch h⟩
  quiet _ := rfl
  outcome := .inl ⟨rfl, rfl, rfl, .silent rfl⟩

/-- One fatal error at most: after the first nothing joins the queue. -/
theorem trans (h : Aftermath i slots targets e e') (h' : Aftermath i slots targets e' e'') :
    Aftermath i slots targets e e'' where
  rest := by
    rw [h'.rest, h.rest]
  calm := h.calm.trans h'.calm
  others j hj := (h'.others j hj).trans (h.others j hj)
  bearing := h'.bearing.trans h.bearing
  content n hn := (h'.content n hn).trans (h.content n hn)
  tasks := by
    obtain ⟨ts, hq, hts⟩ := h.tasks
    obtain ⟨ts', hq', hts'⟩ := h'.tasks
    refine ⟨ts ++ ts', by rw [hq', hq, List.append_assoc], fun t ht => ?_⟩
    exact (List.mem_append.mp ht).elim (hts t) (hts' t)
  quiet hp := by
    have hp' : e'.stopRequested = true :=
      h.outcome.elim (fun hu => hu.stopRequested.trans hp) (·.stopRequested)
    exact (h'.quiet hp').trans (h.quiet hp)
  outcome := by
    rcases h.outcome with hu | ho
    · rcases h'.outcome with hu' | ho'
      · exact .inl ⟨hu'.stopRequested.trans hu.stopRequested, hu'.lastError.trans hu.lastError,
          hu'.failed.trans hu.failed, hu.reports.trans hu'.reports⟩
      · obtain ⟨c, hc, hr⟩ := ho'.reports
        refine .inr ⟨hu.stopRequested.symm.trans ho'.going, ho'.stopRequested, ho'.full,
          ho'.lastError, ho'.failed.trans ?_, c, hc, hu.reports.trans hr⟩
        have hconst := congrArg (Option.map fun _ => true) hu.failed
        simpa [Option.map_map, Function.comp_def] using hconst
    · rcases h'.outcome with hu' | ho'
      · obtain ⟨c, hc, hr⟩ := ho.reports
        refine .inr ⟨ho.going, hu'.stopRequested.trans ho.stopRequested, ?_,
          hu'.lastError.trans ho.lastError, hu'.failed.trans ho.failed, c, hc,
          hr.trans hu'.reports⟩
        rw [h'.quiet ho.stopRequested]
        exact ho.full
      · exact absurd (ho'.going.symm.trans ho.stopRequested) Bool.false_ne_true

theorem heap_eq (h : Aftermath i slots targets e e') : e'.heap = e.heap := by rw [h.rest]

/-- No slot goes away. -/
theorem held (h : Aftermath i slots targets e e') {n : Nat} {held : Value}
    (hc : e.content? (.slot i n) = some held) : ∃ held', e'.content? (.slot i n) = some held' := by
  obtain ⟨s, hs, hget⟩ := Option.bind_eq_some_iff.mp hc
  have hbearing := h.bearing
  rw [hs] at hbearing
  obtain ⟨s', hs', heq⟩ := Option.map_eq_some_iff.mp hbearing
  have hsize : s'.values.size = s.values.size := by
    simpa [Instance.bearing] using congrArg (·.values.size) heq
  have hlt : n < s'.values.size := hsize ▸ (Array.getElem?_eq_some_iff.mp hget).1
  exact ⟨s'.values[n], by rw [content?_slot, hs', Option.bind_some, Array.getElem?_eq_getElem hlt]⟩

/-- Changes outside the instances and the queue. -/
theorem aside (hrest : e' = { e with journal := e'.journal, breakdown := e'.breakdown })
    (hcalm : Calm e e') (hreports : Reports [] e e') : Aftermath i slots targets e e' := by
  have hi (j : InstanceId) : e'.instance? j = e.instance? j := by rw [hrest]; rfl
  have hq : e'.queue = e.queue := by rw [hrest]
  refine ⟨?_, hcalm, fun j _ => hi j, by rw [hi], fun n _ => ?_,
    ⟨[], by rw [hq, List.append_nil], fun _ h => nomatch h⟩, fun _ => hq,
    .inl ⟨by rw [hrest], by rw [hrest], by rw [hi], hreports⟩⟩
  · rw [hrest]
  · rw [content?_slot, content?_slot, hi]

end Aftermath

/-! ## 4. Slots -/

section

variable {e : Engine} {i : InstanceId} {slot : Nat}

/-- What a slot holds after it is written. -/
theorem content?_writeSlot {held : Value} (h : e.content? (.slot i slot) = some held) (v : Value) :
    (e.writeSlot i slot v).content? (.slot i slot) = some v := by
  obtain ⟨s, hs, hget⟩ := Option.bind_eq_some_iff.mp h
  have hlt : slot < s.values.size := (Array.getElem?_eq_some_iff.mp hget).1
  rw [content?_slot, instance?_writeSlot, if_pos rfl, hs]
  simp [Instance.setValue, hlt]

theorem content?_writeSlot_of_ne {n : Nat} (hn : n ≠ slot) (v : Value) :
    (e.writeSlot i slot v).content? (.slot i n) = e.content? (.slot i n) := by
  rw [content?_slot, content?_slot, instance?_writeSlot, if_pos rfl]
  cases e.instance? i with
  | none => rfl
  | some s => simp [Instance.setValue, Array.getElem?_setIfInBounds_ne hn.symm]

theorem aftermath_writeSlot (v : Value) (targets : List Nat) :
    Aftermath i [slot] targets e (e.writeSlot i slot v) where
  rest := rfl
  calm := calm_writeSlot e i slot v
  others j hj := by rw [instance?_writeSlot, if_neg hj]
  bearing := by
    rw [instance?_writeSlot, if_pos rfl, Option.map_map]
    congr 1
    funext s
    simp [Instance.bearing, Instance.setValue]
  content n hn := content?_writeSlot_of_ne (by simpa using hn) v
  tasks := ⟨[], by rw [List.append_nil]; rfl, fun _ h => nomatch h⟩
  quiet _ := rfl
  outcome := by
    refine .inl ⟨rfl, rfl, ?_, .record _ rfl⟩
    rw [instance?_writeSlot, if_pos rfl, Option.map_map]
    rfl

theorem aftermath_clearSlot (e : Engine) (i : InstanceId) (slot : Nat) (targets : List Nat) :
    Aftermath i [slot] targets e (e.clearSlot i slot) := by
  unfold clearSlot
  split
  · split
    · exact .refl e
    · exact aftermath_writeSlot _ _
  · exact .refl e

theorem aftermath_clearSlots (e : Engine) (i : InstanceId) (slots targets : List Nat) :
    Aftermath i slots targets e (slots.foldl (fun e slot => e.clearSlot i slot) e) := by
  suffices h : ∀ {front} e, front ⊆ slots →
      Aftermath i slots targets e (front.foldl (fun e slot => e.clearSlot i slot) e) from
    h e (List.Subset.refl slots)
  intro front
  induction front with
  | nil => exact fun e _ => .refl e
  | cons slot front ih =>
    intro e hfront
    obtain ⟨hslot, hfront⟩ := List.cons_subset.mp hfront
    have hfirst := (aftermath_clearSlot e i slot targets).mono
      (List.cons_subset.mpr ⟨hslot, List.nil_subset slots⟩) (List.Subset.refl targets)
    exact hfirst.trans (ih _ hfront)

theorem aftermath_record (e : Engine) (i : InstanceId) (slots targets : List Nat) {event : Event}
    (hl : event.isLife = false) (hf : event.isFailure = false) :
    Aftermath i slots targets e (e.record event) :=
  .aside rfl (.record e hl) (.record e hf)

/-- A value comes to the end of a connection. -/
theorem aftermath_arrival (e : Engine) (i : InstanceId) (slot target : Nat) (held v : Value)
    (targets : List Nat) : Aftermath i [slot] targets e (e.arrival i slot target held v) := by
  have hoffer : Aftermath i [slot] targets e (e.offerSlot i slot held v) := by
    unfold offerSlot
    split
    · exact .refl e
    · exact aftermath_writeSlot v targets
    · have hbreak : Aftermath i [slot] targets e (e.breakDown .endlessArray) :=
        .aside rfl (.of_eq rfl rfl rfl) (.silent rfl)
      exact hbreak.trans (aftermath_writeSlot v targets)
  exact hoffer.trans (aftermath_record _ i [slot] targets rfl rfl)

/-- A task of a component joins the queue. -/
theorem aftermath_push (hgo : e.stopRequested = false) (component : Nat) (slots : List Nat) :
    Aftermath i slots [component] e (({ e with
      queue := { e.queue with tasks := e.queue.tasks ++ [⟨i, component, false⟩] } } : Engine).record
        (.pushed ⟨i, component, false⟩)) := by
  have hqueue : Calm e { e with
      queue := { e.queue with tasks := e.queue.tasks ++ [⟨i, component, false⟩] } } :=
    .of_eq rfl rfl rfl
  refine ⟨rfl, hqueue.trans (.record _ rfl), fun _ _ => rfl, rfl, fun _ _ => rfl,
    ⟨[⟨i, component, false⟩], rfl, ?_⟩, fun h => ?_,
    .inl ⟨rfl, rfl, rfl, [.pushed ⟨i, component, false⟩], rfl, rfl⟩⟩
  · intro t ht
    rw [List.mem_singleton.mp ht]
    exact ⟨rfl, List.mem_singleton_self _, rfl⟩
  · exact absurd (hgo.symm.trans h) Bool.false_ne_true

/-- **The queue is full** for a task of a component, which is fatal. -/
theorem aftermath_refuse (hgo : e.stopRequested = false)
    (hfull : ¬ e.queue.size < e.queue.capacity) (component : Nat) (slots : List Nat) :
    Aftermath i slots [component] e ((e.record (.refused ⟨i, component, false⟩)).failFatally i
      component FlowError.queueFull.message) := by
  have hown (j : InstanceId) : ((e.record (.refused ⟨i, component, false⟩)).failFatally i
      component FlowError.queueFull.message).instance? j
        = if j = i then (e.instance? i).map (fun s => { s with failed := true })
          else e.instance? j := instance?_modifyInstance e i j _
  have hrefuse : Stroke False nobody e ((e.record (.refused ⟨i, component, false⟩)).failFatally i
      component FlowError.queueFull.message) :=
    .refuse (t := ⟨i, component, false⟩) (if_neg hfull) i component
  refine ⟨rfl, hrefuse.calm, fun j hj => by rw [hown, if_neg hj], ?_, fun n _ => ?_,
    ⟨[], by rw [List.append_nil]; rfl, fun _ h => nomatch h⟩, fun _ => rfl,
    .inr ⟨hgo, rfl, Nat.le_of_not_lt hfull, rfl, ?_, component, List.mem_singleton_self _,
      [.stopAsked, .failed i component _, .refused ⟨i, component, false⟩], rfl, rfl⟩⟩
  · rw [hown, if_pos rfl, Option.map_map]
    rfl
  · rw [content?_slot, content?_slot, hown, if_pos rfl]
    cases e.instance? i <;> rfl
  · rw [hown, if_pos rfl, Option.map_map]
    rfl

/-- **A component is pinged**: once a stop is pending nothing comes of that. -/
theorem aftermath_ping (e : Engine) (i : InstanceId) (component : Nat) (slots : List Nat) :
    Aftermath i slots [component] e (e.ping i component).2 := by
  unfold ping
  split
  · exact .refl e
  next hready =>
  have hgo : e.stopRequested = false := by
    cases h : e.stopRequested <;> simp [h] at hready ⊢
  unfold enqueue TaskQueue.push?
  by_cases hroom : e.queue.size < e.queue.capacity
  · simp only [if_pos hroom]
    exact aftermath_push hgo component slots
  · simp only [if_neg hroom]
    exact aftermath_refuse hgo hroom component slots

end

end Engine

end InstrumentFlow
