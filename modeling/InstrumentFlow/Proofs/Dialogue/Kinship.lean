import InstrumentFlow.Engine.Schedule
import InstrumentFlow.Proofs.Forest.Access

/-!
# Programs that differ in their surroundings only

What a part of a payload does depends on what is stored. It does not depend on who waits for which
transaction, nor on what others have queued as long as there is room.

* `Storage` -- what expressions and assignments read and write;
* `Engine.shown` -- what can be seen of the work of components, requests without their numbers;
* `Akin` -- two programs in which the same is stored, and which have shown the same since they
  began;
* `Akin.writeSlot`, `Akin.resetSequenceInputs`, ... -- what leaves them so;
* `Refuses`, `Akin.ping` -- pings do, but where a queue is full.
-/

namespace InstrumentFlow

open Scpi (RequestKind Ledger)

/-! ## 1. What is stored -/

/-- What others can see of an instance: its flow, its slots, and how many components it has a place
    for. -/
structure Seat where
  flow : Nat
  values : Array Value
  inputCount : Nat
  places : Nat

def Instance.seat (s : Instance) : Seat := ⟨s.flow, s.values, s.inputCount, s.progress.size⟩

/-- The host without what only its own components use. -/
def Host.memory (h : Host) : Host :=
  { h with running := true, components := [], executions := [], kept := [] }

/-- **What expressions and assignments read and write.** Every evaluation clears the stack before it
    begins, so that only its capacity counts. -/
structure Storage where
  definition : Definition
  seats : InstanceId → Option Seat
  globals : Array Value
  heap : Heap
  stackCapacity : Nat
  host : Host

/-! ## 2. What is shown -/

namespace Event

/-- What can be seen of an event: the work of components, and requests without their numbers. -/
def shown? : Event → Option Event
  | @changed l found => some (@changed l found)
  | logged i component entry => some (logged i component entry)
  | nativeWritten id image => some (nativeWritten id image)
  | pushed t => if t.continuous then none else some (pushed t)
  | sent i component output v => some (sent i component output v)
  | delivered i slot target v => some (delivered i slot target v)
  | dispatched i component r => some (dispatched i component { r with transaction := 0 })
  | _ => none

def isRequest : Event → Bool
  | dispatched _ _ _ => true
  | _ => false

theorem isRequest_of_shown? {event image : Event} (h : event.shown? = some image) :
    image.isRequest = event.isRequest := by
  cases event with
  | pushed t =>
    simp only [shown?] at h
    split at h
    · cases h
    · rw [← Option.some.inj h]
  | dispatched i component r =>
    rw [← Option.some.inj h]
    rfl
  | changed l | logged i c entry | nativeWritten id image | sent i c output v
  | delivered i slot target v =>
    rw [← Option.some.inj h]
  | _ => cases h

end Event

namespace Engine

def storage (e : Engine) : Storage :=
  { definition := e.definition
    seats := fun i => (e.instance? i).map Instance.seat
    globals := e.globals
    heap := e.heap
    stackCapacity := e.stack.capacity
    host := e.host.memory }

/-- What has been shown, the earliest first. -/
def shown (e : Engine) : List Event := (e.journal.filterMap Event.shown?).reverse

/-- What no part of a payload changes. -/
def fixture (e : Engine) (i : InstanceId) : Definition × Option (Nat × Nat) :=
  (e.definition, (e.instance? i).map fun s => (s.flow, s.progress.size))

/-- What a part of a payload leaves as it is, but for pings and requests. -/
def stance (e : Engine) : Option (InstanceId × Nat) × Bool × Bool × TaskQueue × Dispatcher :=
  (e.executing, e.stopRequested, e.stopped, e.queue, e.dispatcher)

/-! ## 3. Kinship -/

/-- **Two programs in which the same is stored**, and which since they began have shown the same,
    `n` requests among it. The queue of the first is not the longer one. -/
structure Akin (i : InstanceId) (n : Nat) (a₀ e₀ a e : Engine) : Prop where
  storage : a.storage = e.storage
  executing : a.executing = e.executing
  running : a.executing = a₀.executing
  stopRequested : a.stopRequested = e.stopRequested
  stopped : a.stopped = e.stopped
  capacity : a.queue.capacity = e.queue.capacity
  size : a.queue.size ≤ e.queue.size
  fixture : e.fixture i = e₀.fixture i
  dispatcher : n = 0 → e.dispatcher = e₀.dispatcher
  grown : e₀.journal <:+ e.journal
  trace : ∃ own, a.shown = a₀.shown ++ own ∧ e.shown = e₀.shown ++ own
    ∧ own.countP Event.isRequest = n

theorem shown_append {e e' : Engine} {news : List Event} (hj : e'.journal = news ++ e.journal) :
    e'.shown = e.shown ++ (news.filterMap Event.shown?).reverse := by
  unfold shown
  rw [hj, List.filterMap_append, List.reverse_append]

section

variable {a e : Engine}

/-- The scope of expressions is part of what is stored. -/
theorem scope_of_storage (h : a.storage = e.storage) : a.scope = e.scope := by
  have hscope (e : Engine) : e.scope = ⟨e.storage.definition.constants,
      fun i => (e.storage.seats i).map fun s => ⟨s.values, s.inputCount⟩, e.storage.globals,
      e.storage.host.native⟩ := by
    unfold Engine.scope
    congr 1
    funext i
    show _ = ((e.instance? i).map Instance.seat).map _
    rw [Option.map_map]
    rfl
  rw [hscope a, hscope e, h]

/-- What a host can read is part of what is stored. -/
theorem content?_of_storage (h : a.storage = e.storage) : a.content? = e.content? := by
  have hread (e : Engine) (i : InstanceId) (n : Nat) :
      e.content? (.slot i n) = (e.storage.seats i).bind (·.values[n]?) := by
    show _ = ((e.instance? i).map Instance.seat).bind _
    rw [Option.bind_map]
    rfl
  funext l
  cases l with
  | slot i n => rw [hread, hread, h]
  | global n => exact congrArg (fun s : Storage => s.globals[n]?) h
  | element n => rfl

/-- An instance is there in both programs or in none, with the same slots. -/
theorem instance?_of_storage (h : a.storage = e.storage) (i : InstanceId) :
    (a.instance? i = none ∧ e.instance? i = none)
    ∨ ∃ s t, a.instance? i = some s ∧ e.instance? i = some t ∧ s.seat = t.seat := by
  have hseat : (a.instance? i).map Instance.seat = (e.instance? i).map Instance.seat :=
    congrFun (congrArg Storage.seats h) i
  cases ha : a.instance? i with
  | none =>
    rw [ha] at hseat
    exact Or.inl ⟨rfl, Option.map_eq_none_iff.mp hseat.symm⟩
  | some s =>
    rw [ha] at hseat
    obtain ⟨t, ht, hst⟩ := Option.map_eq_some_iff.mp hseat.symm
    exact Or.inr ⟨s, t, rfl, ht, hst.symm⟩

/-- The storage after a slot was written. -/
theorem storage_setValue (e : Engine) (i : InstanceId) (slot : Nat) (v : Value) :
    (e.modifyInstance i (·.setValue slot v)).storage = { e.storage with
      seats := fun j => if j = i then
          (e.storage.seats i).map fun s => { s with values := s.values.setIfInBounds slot v }
        else e.storage.seats j } := by
  have hget (j : InstanceId) : (e.modifyInstance i (·.setValue slot v)).instance? j
      = if j = i then (e.instance? i).map (·.setValue slot v) else e.instance? j :=
    Forest.get?_modify e.forest i _ j
  unfold storage
  simp only [hget]
  congr 1
  funext j
  split
  · simp only [Option.map_map]
    rfl
  · rfl

theorem fixture_writeSlot (e : Engine) (i j : InstanceId) (slot : Nat) (v : Value) :
    (e.writeSlot j slot v).fixture i = e.fixture i := by
  have hget : (e.writeSlot j slot v).instance? i
      = if i = j then (e.instance? j).map (·.setValue slot v) else e.instance? i :=
    Forest.get?_modify e.forest j _ i
  unfold fixture
  rw [hget]
  split
  · next hij =>
    rw [hij, Option.map_map]
    rfl
  · rfl

theorem fixture_of_storage (h : a.storage = e.storage) (i : InstanceId) :
    a.fixture i = e.fixture i := by
  have hd : a.definition = e.definition := congrArg Storage.definition h
  unfold fixture
  rcases instance?_of_storage h i with ⟨ha, he⟩ | ⟨s, t, ha, he, hst⟩
  · rw [ha, he, hd]
  · rw [ha, he, hd]
    exact congrArg (fun seat : Seat => (e.definition, some (seat.flow, seat.places))) hst

end

namespace Akin

variable {i : InstanceId} {n : Nat} {a₀ e₀ a e a' e' : Engine}

theorem heap (h : Akin i n a₀ e₀ a e) : a.heap = e.heap := congrArg Storage.heap h.storage

theorem definition (h : Akin i n a₀ e₀ a e) : a.definition = e.definition :=
  congrArg Storage.definition h.storage

theorem globals (h : Akin i n a₀ e₀ a e) : a.globals = e.globals :=
  congrArg Storage.globals h.storage

theorem host (h : Akin i n a₀ e₀ a e) : a.host.memory = e.host.memory :=
  congrArg Storage.host h.storage

theorem stackCapacity (h : Akin i n a₀ e₀ a e) : a.stack.capacity = e.stack.capacity :=
  congrArg Storage.stackCapacity h.storage

theorem scope (h : Akin i n a₀ e₀ a e) : a.scope = e.scope := scope_of_storage h.storage

theorem instance? (h : Akin i n a₀ e₀ a e) (j : InstanceId) :
    (a.instance? j = none ∧ e.instance? j = none)
    ∨ ∃ s t, a.instance? j = some s ∧ e.instance? j = some t ∧ s.seat = t.seat :=
  instance?_of_storage h.storage j

/-- **Both go on in the same way**: the same is stored, the same happens, and who is at work, the
    stop and the queue stay as they are. -/
theorem goOn (h : Akin i n a₀ e₀ a e) (hs : a'.storage = e'.storage) (ha : a'.stance = a.stance)
    (he : e'.stance = e.stance) (hf : e'.fixture i = e.fixture i) (news : List Event)
    (hja : a'.journal = news ++ a.journal) (hje : e'.journal = news ++ e.journal) :
    Akin i (n + (news.filterMap Event.shown?).countP Event.isRequest) a₀ e₀ a' e' := by
  obtain ⟨own, hsa, hse, hown⟩ := h.trace
  simp only [stance, Prod.mk.injEq] at ha he
  obtain ⟨hexa, hrqa, hsta, hqa, _⟩ := ha
  obtain ⟨hexe, hrqe, hste, hqe, hde⟩ := he
  refine ⟨hs, ?_, hexa.trans h.running, ?_, ?_, ?_, ?_, hf.trans h.fixture, fun hn => ?_, ?_,
    own ++ (news.filterMap Event.shown?).reverse, ?_, ?_, ?_⟩
  · rw [hexa, hexe, h.executing]
  · rw [hrqa, hrqe, h.stopRequested]
  · rw [hsta, hste, h.stopped]
  · rw [hqa, hqe, h.capacity]
  · rw [hqa, hqe]
    exact h.size
  · exact hde.trans (h.dispatcher (Nat.eq_zero_of_add_eq_zero_right hn))
  · rw [hje]
    exact h.grown.trans (List.suffix_append news e.journal)
  · rw [shown_append hja, hsa, List.append_assoc]
  · rw [shown_append hje, hse, List.append_assoc]
  · rw [List.countP_append, List.countP_reverse, hown]

/-- Both go on without telling anything. -/
theorem silently (h : Akin i n a₀ e₀ a e) (hs : a'.storage = e'.storage)
    (ha : a'.stance = a.stance) (he : e'.stance = e.stance) (hf : e'.fixture i = e.fixture i)
    (hja : a'.journal = a.journal) (hje : e'.journal = e.journal) : Akin i n a₀ e₀ a' e' :=
  h.goOn hs ha he hf [] hja hje

/-- Both go on, and one event that is no request happens. -/
theorem telling (h : Akin i n a₀ e₀ a e) (hs : a'.storage = e'.storage)
    (ha : a'.stance = a.stance) (he : e'.stance = e.stance) (hf : e'.fixture i = e.fixture i)
    (event : Event) (hr : event.isRequest = false) (hja : a'.journal = event :: a.journal)
    (hje : e'.journal = event :: e.journal) : Akin i n a₀ e₀ a' e' := by
  have hgoes := h.goOn hs ha he hf [event] hja hje
  have hcount : ([event].filterMap Event.shown?).countP Event.isRequest = 0 := by
    rw [List.filterMap_cons]
    split
    · rfl
    · next image himage => simp [Event.isRequest_of_shown? himage, hr]
  rwa [hcount] at hgoes

/-- Something happens in the second program that is not shown. -/
theorem unseen (h : Akin i n a₀ e₀ a e) (hs : e'.storage = e.storage)
    (he : e'.stance = e.stance) (news : List Event)
    (hn : news.filterMap Event.shown? = []) (hj : e'.journal = news ++ e.journal) :
    Akin i n a₀ e₀ a e' := by
  obtain ⟨own, hsa, hse, hown⟩ := h.trace
  simp only [stance, Prod.mk.injEq] at he
  obtain ⟨hex, hrq, hst, hq, hd⟩ := he
  refine ⟨h.storage.trans hs.symm, h.executing.trans hex.symm, h.running,
    h.stopRequested.trans hrq.symm, h.stopped.trans hst.symm, ?_, ?_,
    (fixture_of_storage hs i).trans h.fixture, fun hn => hd.trans (h.dispatcher hn), ?_, own, hsa,
    ?_, hown⟩
  · rw [h.capacity, hq]
  · rw [hq]
    exact h.size
  · rw [hj]
    exact h.grown.trans (List.suffix_append news e.journal)
  · rw [shown_append hj, hn, hse]
    exact List.append_nil _

/-! ## 4. Writers -/

theorem record (h : Akin i n a₀ e₀ a e) (event : Event) (hr : event.isRequest = false) :
    Akin i n a₀ e₀ (a.record event) (e.record event) :=
  h.telling h.storage rfl rfl rfl event hr rfl rfl

theorem breakDown (h : Akin i n a₀ e₀ a e) (b : Breakdown) :
    Akin i n a₀ e₀ (a.breakDown b) (e.breakDown b) := h.silently h.storage rfl rfl rfl rfl rfl

theorem tellChanged (h : Akin i n a₀ e₀ a e) (l : Location) :
    Akin i n a₀ e₀ (a.tellChanged l) (e.tellChanged l) := by
  unfold Engine.tellChanged
  rw [content?_of_storage h.storage]
  exact h.record _ rfl

theorem writeSlot (h : Akin i n a₀ e₀ a e) (j : InstanceId) (slot : Nat) (v : Value) :
    Akin i n a₀ e₀ (a.writeSlot j slot v) (e.writeSlot j slot v) := by
  have hs : (a.modifyInstance j (·.setValue slot v)).storage
      = (e.modifyInstance j (·.setValue slot v)).storage := by
    rw [storage_setValue, storage_setValue, h.storage]
  exact (h.silently hs rfl rfl (fixture_writeSlot e i j slot v) rfl rfl).tellChanged _

theorem writeGlobal (h : Akin i n a₀ e₀ a e) (index : Nat) (v : Value) :
    Akin i n a₀ e₀ (a.writeGlobal index v) (e.writeGlobal index v) := by
  have hs (e : Engine) : { e with globals := e.globals.setIfInBounds index v }.storage
      = { e.storage with globals := e.storage.globals.setIfInBounds index v } := rfl
  have hwritten : Akin i n a₀ e₀ { a with globals := a.globals.setIfInBounds index v }
      { e with globals := e.globals.setIfInBounds index v } :=
    h.silently (by rw [hs, hs, h.storage]) rfl rfl rfl rfl rfl
  exact hwritten.tellChanged _

theorem writeElement (h : Akin i n a₀ e₀ a e) (array : ArrayId) (index : Nat) (v : Value) :
    Akin i n a₀ e₀ (a.writeElement array index v) (e.writeElement array index v) := by
  have hs (e : Engine) : { e with heap := e.heap.write array index v }.storage
      = { e.storage with heap := e.storage.heap.write array index v } := rfl
  have hwritten : Akin i n a₀ e₀ { a with heap := a.heap.write array index v }
      { e with heap := e.heap.write array index v } :=
    h.silently (by rw [hs, hs, h.storage]) rfl rfl rfl rfl rfl
  exact hwritten.tellChanged _

theorem noteAssigned (h : Akin i n a₀ e₀ a e) (destination v : Value) :
    Akin i n a₀ e₀ (a.noteAssigned destination v) (e.noteAssigned destination v) := by
  unfold Engine.noteAssigned
  rw [h.heap]
  exact h.record _ rfl

theorem clearSlot (h : Akin i n a₀ e₀ a e) (j : InstanceId) (slot : Nat) :
    Akin i n a₀ e₀ (a.clearSlot j slot) (e.clearSlot j slot) := by
  have hheld : (a.instance? j).bind (·.values[slot]?) = (e.instance? j).bind (·.values[slot]?) := by
    rcases h.instance? j with ⟨ha, he⟩ | ⟨s, t, ha, he, hst⟩
    · rw [ha, he]
    · rw [ha, he]
      exact congrArg (fun seat : Seat => seat.values[slot]?) hst
  unfold Engine.clearSlot
  rw [hheld]
  split
  · split
    · exact h
    · exact h.writeSlot j slot .undefined
  · exact h

theorem clearSlots (h : Akin i n a₀ e₀ a e) (j : InstanceId) (slots : List Nat) :
    Akin i n a₀ e₀ (slots.foldl (fun e slot => e.clearSlot j slot) a)
      (slots.foldl (fun e slot => e.clearSlot j slot) e) := by
  induction slots generalizing a e with
  | nil => exact h
  | cons slot slots ih => exact ih (h.clearSlot j slot)

end Akin

/-- The pulse slots of a component are told by what is stored. -/
theorem sequenceInputs_of_storage {a e : Engine} (h : a.storage = e.storage) (i : InstanceId)
    (component : Nat) : a.sequenceInputs i component = e.sequenceInputs i component := by
  have hd : a.definition = e.definition := congrArg Storage.definition h
  unfold sequenceInputs flowOf
  rcases instance?_of_storage h i with ⟨ha, he⟩ | ⟨s, t, ha, he, hst⟩
  · rw [ha, he]
  · rw [ha, he]
    have hflow : s.flow = t.flow := congrArg Seat.flow hst
    dsimp only
    rw [hd, hflow]

theorem Akin.resetSequenceInputs {i : InstanceId} {n : Nat} {a₀ e₀ a e : Engine}
    (h : Akin i n a₀ e₀ a e) (j : InstanceId) (component : Nat) :
    Akin i n a₀ e₀ (a.resetSequenceInputs j component) (e.resetSequenceInputs j component) := by
  unfold Engine.resetSequenceInputs
  rw [sequenceInputs_of_storage h.storage]
  exact h.clearSlots j _

/-! ## 5. Pings -/

/-- A task was refused between two states. -/
def Refuses (e e' : Engine) : Prop :=
  ∃ news t, e'.journal = news ++ e.journal ∧ Event.refused t ∈ news

theorem Refuses.grow {e e' e'' : Engine} (h : Refuses e e') (hj : e'.journal <:+ e''.journal) :
    Refuses e e'' := by
  obtain ⟨news, t, hnews, ht⟩ := h
  obtain ⟨more, hmore⟩ := hj
  refine ⟨more ++ news, t, ?_, List.mem_append_right more ht⟩
  rw [← hmore, hnews, List.append_assoc]

theorem isReady_of_storage {a e : Engine} (h : a.storage = e.storage) (i : InstanceId)
    (component : Nat) : a.isReady i component = e.isReady i component := by
  have hd : a.definition = e.definition := congrArg Storage.definition h
  unfold isReady inputsAllow flowOf
  rcases instance?_of_storage h i with ⟨ha, he⟩ | ⟨s, t, ha, he, hst⟩
  · rw [ha, he]
  · rw [ha, he]
    have hflow : s.flow = t.flow := congrArg Seat.flow hst
    have hslots (f : Flow) (slots : List UInt16) (pulseCounts : Bool) :
        slotsAllow f s slots pulseCounts = slotsAllow f t slots pulseCounts := by
      have hdefined : isDefined s = isDefined t := by
        have hvalues : s.values = t.values := congrArg Seat.values hst
        unfold isDefined
        rw [hvalues]
      unfold slotsAllow
      rw [hdefined]
    dsimp only
    rw [hd, hflow]
    simp only [hslots]

/-- **A ping does the same in both**, but where the queue is full. -/
theorem Akin.ping {i : InstanceId} {n : Nat} {a₀ e₀ a e : Engine} (h : Akin i n a₀ e₀ a e)
    (j : InstanceId) (component : Nat) :
    Refuses e₀ (e.ping j component).2
    ∨ (a.ping j component).1 = (e.ping j component).1
      ∧ Akin i n a₀ e₀ (a.ping j component).2 (e.ping j component).2 := by
  unfold Engine.ping
  rw [h.stopRequested, isReady_of_storage h.storage]
  split
  · exact Or.inr ⟨rfl, h⟩
  unfold Engine.enqueue TaskQueue.push?
  by_cases hroom : e.queue.size < e.queue.capacity
  · have hroom' : a.queue.size < a.queue.capacity := by
      have := h.size
      rw [h.capacity]
      omega
    rw [if_pos hroom, if_pos hroom']
    refine Or.inr ⟨rfl, ?_⟩
    have hpushed := h.record (.pushed ⟨j, component, false⟩) rfl
    refine ⟨hpushed.storage, hpushed.executing, hpushed.running, hpushed.stopRequested,
      hpushed.stopped, hpushed.capacity, ?_, hpushed.fixture, hpushed.dispatcher, hpushed.grown,
      hpushed.trace⟩
    have hsize := h.size
    simp only [TaskQueue.size, Engine.record, List.length_append] at hsize ⊢
    omega
  · rw [if_neg hroom]
    obtain ⟨news, hnews⟩ := h.grown
    refine Or.inl ⟨[.stopAsked, .failed j component FlowError.queueFull.message,
      .refused ⟨j, component, false⟩] ++ news, ⟨j, component, false⟩, ?_, by simp⟩
    rw [List.append_assoc, hnews]
    rfl

/-! ## 6. Requests -/

/-- **A request goes out in both**, each time with a number of its own. -/
theorem Akin.asked {i : InstanceId} {a₀ e₀ a e : Engine} (h : Akin i 0 a₀ e₀ a e)
    (component : Nat) (kind : RequestKind) (text : String) (t t' : Nat) (ledger : Ledger)
    (dispatcher : Dispatcher) :
    Akin i 1 a₀ e₀ (a.record (.dispatched i component ⟨t, kind, text⟩))
      ({ e with ledger, dispatcher }.record (.dispatched i component ⟨t', kind, text⟩)) := by
  obtain ⟨own, hsa, hse, hown⟩ := h.trace
  have hsee (a : Engine) (t : Nat) : (a.record (.dispatched i component ⟨t, kind, text⟩)).shown
      = a.shown ++ [.dispatched i component ⟨0, kind, text⟩] := by
    have hj : (a.record (.dispatched i component ⟨t, kind, text⟩)).journal
        = [.dispatched i component ⟨t, kind, text⟩] ++ a.journal := rfl
    exact shown_append hj
  refine ⟨h.storage, h.executing, h.running, h.stopRequested, h.stopped, h.capacity, h.size,
    h.fixture, fun hn => (nomatch hn), h.grown.trans (List.suffix_cons _ _),
    own ++ [.dispatched i component ⟨0, kind, text⟩], ?_, ?_, ?_⟩
  · rw [hsee, hsa, List.append_assoc]
  · rw [hsee, ← List.append_assoc, ← hse]
    rfl
  · rw [List.countP_append, hown]
    rfl

end Engine

end InstrumentFlow
