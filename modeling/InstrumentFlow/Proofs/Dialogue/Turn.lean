import InstrumentFlow.Proofs.Dialogue.Parts
import InstrumentFlow.Proofs.Engine.Slots
import InstrumentFlow.Proofs.Suspension

/-!
# One turn of an SCPI component

A step takes the progress of its component, goes through parts, and puts progress back. Where it is
suspended a task continues it later, and the pulses of the component are used up.

* `storage_setProgress`, `Akin.settleProgress` -- progress is none of what expressions read;
* `stepScpi_eq`, `grows_stepScpi` -- a step in terms of its parts;
* `resetSequenceInputs_of_pulsesGone`, `standBy_standBy` -- pulses are used up once;
* `paused`, `akin_paused` -- the program after a step that was suspended.
-/

namespace InstrumentFlow.Engine

open Scpi

/-! ## 1. Progress and storage -/

section

variable {e : Engine} {i : InstanceId} {c : Nat}

theorem storage_setProgress (e : Engine) (i : InstanceId) (c : Nat) (p : Option Progress) :
    (e.setProgress i c p).storage = e.storage := by
  have hseat (s : Instance) : (s.setProgress c p).seat = s.seat := by
    simp [Instance.seat, Instance.setProgress]
  unfold storage
  simp only [instance?_setProgress]
  congr 1
  funext j
  split
  · next hji =>
    rw [hji, Option.map_map]
    exact congrArg (Option.map · (e.instance? i)) (funext hseat)
  · rfl

/-- The flow of an instance is part of what no part of a payload changes. -/
theorem flowIndex_of_fixture {a : Engine} (h : a.fixture i = e.fixture i) :
    a.flowIndex i = e.flowIndex i := by
  have hflow (e : Engine) : e.flowIndex i = ((e.fixture i).2.map Prod.fst).getD 0 := by
    unfold flowIndex fixture
    cases e.instance? i <;> rfl
  rw [hflow a, hflow e, h]

theorem hasComponent_of_fixture {a : Engine} (h : a.fixture i = e.fixture i) (c : Nat) :
    a.hasComponent i c = e.hasComponent i c := by
  have hroom (e : Engine) : e.hasComponent i c = (e.fixture i).2.any fun p => c < p.2 := by
    unfold hasComponent fixture
    cases e.instance? i <;> rfl
  rw [hroom a, hroom e, h]

theorem componentOf?_of_fixture {a : Engine} (h : a.fixture i = e.fixture i) (c : Nat) :
    a.componentOf? i c = e.componentOf? i c := by
  have hrecord (e : Engine) : e.componentOf? i c
      = (e.fixture i).2.bind fun p => (e.fixture i).1.component? p.1 c := by
    unfold componentOf? fixture
    cases e.instance? i <;> rfl
  rw [hrecord a, hrecord e, h]

theorem Akin.settleProgress {j : InstanceId} {n : Nat} {a₀ e₀ a : Engine} (h : Akin j n a₀ e₀ a e)
    (i : InstanceId) (c : Nat) (hadProgress : Bool) (p : Option Progress) :
    Akin j n a₀ e₀ a (e.settleProgress i c hadProgress p) := by
  have hset : Akin j n a₀ e₀ a (e.setProgress i c p) :=
    h.unseen (storage_setProgress e i c p) rfl [] rfl rfl
  unfold Engine.settleProgress
  split
  · dsimp only
    split
    · exact hset.unseen rfl rfl [.progressChanged i c] rfl rfl
    · exact hset
  · exact h

/-! ## 2. Steps -/

/-- The parts of a step: the progress of the component is taken away before them. -/
def scpiParts (e : Engine) (i : InstanceId) (c : Nat) (payload : List UInt8) :
    EStateM.Result FlowError Engine (Option ScpiProgress) :=
  runParts i c (e.flowIndex i) payload (payload.length + 1) (scpiProgress (e.progress? i c))
    (e.setProgress i c none)

theorem stepScpi_eq (e : Engine) (i : InstanceId) (c : Nat) (record : Component) :
    stepScpi i c record e
      = match e.scpiParts i c record.payload with
        | .ok (some s) e' => .ok .suspended
            (e'.settleProgress i c (e.progress? i c).isSome (some (.scpi s)))
        | .ok none e' => (pulse i c >>= fun _ => pure .completed)
            (e'.settleProgress i c (e.progress? i c).isSome none)
        | .error err e' => .error err (e'.settleProgress i c (e.progress? i c).isSome none) := by
  have hflow : (e.setProgress i c none).flowIndex i = e.flowIndex i :=
    flowIndex_of_fixture (fixture_of_storage (storage_setProgress e i c none) i)
  have hout : checkOut i c e = .ok (e.progress? i c) (e.setProgress i c none) := rfl
  unfold stepScpi scpiParts
  rw [bind_of_ok hout, get_bind_apply, hflow]
  cases hr : runParts i c (e.flowIndex i) record.payload (record.payload.length + 1)
    (scpiProgress (e.progress? i c)) (e.setProgress i c none) with
  | ok r e' =>
    have hcatch (handle : FlowError → Act (Option ScpiProgress)) :
        tryCatch (runParts i c (e.flowIndex i) record.payload (record.payload.length + 1)
          (scpiProgress (e.progress? i c))) handle (e.setProgress i c none) = .ok r e' := by
      show EStateM.tryCatch _ handle _ = _
      unfold EStateM.tryCatch
      simp only [hr]
    rw [bind_of_ok (hcatch _)]
    cases r <;> rfl
  | error err e' =>
    have hcatch (handle : FlowError → Act (Option ScpiProgress)) :
        tryCatch (runParts i c (e.flowIndex i) record.payload (record.payload.length + 1)
          (scpiProgress (e.progress? i c))) handle (e.setProgress i c none) = handle err e' := by
      show EStateM.tryCatch _ handle _ = _
      unfold EStateM.tryCatch
      simp only [hr]
      rfl
    refine bind_of_error ?_
    rw [hcatch]
    rfl

/-- The end of a step forgets nothing of what its parts have told. -/
theorem grows_stepScpi (e : Engine) (i : InstanceId) (c : Nat) (record : Component) :
    (stateAfter (e.scpiParts i c record.payload)).journal
      <:+ (stateAfter (stepScpi i c record e)).journal := by
  have hput (e' : Engine) (hadProgress : Bool) (p : Option Progress) :
      e'.journal <:+ (e'.settleProgress i c hadProgress p).journal := by
    have hmute : Mute (fun _ _ => true) e' (e'.settleProgress i c hadProgress p) :=
      Mute.tolerant.settleProgress e' rfl hadProgress p
    obtain ⟨news, hj, _⟩ := hmute.news
    exact ⟨news, hj.symm⟩
  rw [stepScpi_eq]
  cases e.scpiParts i c record.payload with
  | ok rest e' =>
    cases rest with
    | none =>
      have hpulse := Mutes.grows (Mute.tolerant.maintains_pulse i c)
        (hput e' (e.progress? i c).isSome none)
      exact (upholds_bind hpulse fun _ _ h _ => upholds_pure h (Q := fun _ _ => True) trivial).after
    | some s => exact hput e' _ _
  | error err e' => exact hput e' _ _

/-! ## 3. Pulses -/

/-- Pulses that are used up cannot be used up again. -/
theorem resetSequenceInputs_of_pulsesGone (h : e.PulsesGone i c) :
    e.resetSequenceInputs i c = e := by
  have hclear (slot : Nat) (hslot : slot ∈ e.sequenceInputs i c) : e.clearSlot i slot = e := by
    unfold clearSlot
    split
    · next v hv =>
      obtain ⟨s, hs, hget⟩ := Option.bind_eq_some_iff.mp hv
      have hnone := h s hs slot hslot
      unfold isDefined at hnone
      rw [hget] at hnone
      have hundefined : v.isUndefined = true := by simpa using hnone
      rw [if_pos hundefined]
    · rfl
  unfold resetSequenceInputs
  generalize e.sequenceInputs i c = slots at hclear
  induction slots with
  | nil => rfl
  | cons slot slots ih =>
    rw [List.foldl_cons, hclear slot List.mem_cons_self]
    exact ih fun slot' hslot => hclear slot' (List.mem_cons_of_mem slot hslot)

/-- Who stood by already stands by in the same way. -/
theorem standBy_standBy (e : Engine) (i : InstanceId) (c : Nat) :
    (e.standBy i c).standBy i c = e.standBy i c := by
  have hgone : (e.standBy i c).PulsesGone i c := pulsesGone_resetSequenceInputs e i c
  have hreset := resetSequenceInputs_of_pulsesGone hgone
  generalize hs : e.standBy i c = s at hreset
  unfold standBy
  rw [hreset, ← hs]
  rfl

/-- Which step is running does not matter for pulses. -/
theorem resetSequenceInputs_executing (e : Engine) (i : InstanceId) (c : Nat)
    (x : Option (InstanceId × Nat)) :
    ({ e with executing := x } : Engine).resetSequenceInputs i c
      = { e.resetSequenceInputs i c with executing := x } := by
  have hclear (e : Engine) (slot : Nat) : ({ e with executing := x } : Engine).clearSlot i slot
      = { e.clearSlot i slot with executing := x } := by
    have hheld : ({ e with executing := x } : Engine).instance? i = e.instance? i := rfl
    unfold clearSlot
    rw [hheld]
    cases (e.instance? i).bind (·.values[slot]?) with
    | none => rfl
    | some v =>
      by_cases hv : v.isUndefined
      · simp only [hv, if_true]
      · simp only [hv]
        rfl
  have hslots :
      ({ e with executing := x } : Engine).sequenceInputs i c = e.sequenceInputs i c := rfl
  unfold resetSequenceInputs
  rw [hslots]
  generalize e.sequenceInputs i c = slots
  induction slots generalizing e with
  | nil => rfl
  | cons slot slots ih =>
    rw [List.foldl_cons, List.foldl_cons, hclear]
    exact ih (e.clearSlot i slot) rfl

/-! ## 4. After a suspended step -/

/-- The program after a step that was suspended. -/
def paused (e : Engine) (i : InstanceId) (c : Nat) : Engine :=
  (settleOutcome i c (.ok .suspended e)).tidy i c

/-- An instance in which a request waits for its answer is not freed. -/
theorem not_isCollectible_of_scpi {s : ScpiProgress} (hp : e.progress? i c = some (.scpi s)) :
    e.isCollectible i = false := by
  unfold progress? at hp
  unfold isCollectible
  obtain ⟨t, ht, hprogress⟩ := Option.bind_eq_some_iff.mp hp
  have hmem : some (.scpi s) ∈ t.progress := by
    unfold Instance.progress? at hprogress
    exact Array.mem_of_getElem? (Option.join_eq_some_iff.mp hprogress)
  rw [ht]
  dsimp only
  rw [Bool.and_eq_false_iff]
  right
  rw [← Bool.not_eq_true]
  intro hall
  cases Array.all_eq_true_iff_forall_mem.mp hall _ hmem

/-- A component that goes on later finds room for the task by which it does. -/
theorem continueLater_of_room (hroom : e.queue.size < e.queue.capacity) :
    e.continueLater i c
      = ({ e with queue := ⟨e.queue.tasks ++ [⟨i, c, true⟩], e.queue.capacity⟩ } : Engine).record
          (.pushed ⟨i, c, true⟩) := by
  have hpush : e.queue.push? ⟨i, c, true⟩
      = some ⟨e.queue.tasks ++ [⟨i, c, true⟩], e.queue.capacity⟩ := if_pos hroom
  rcases continueLater_cases e i c with ⟨queue, hq, he⟩ | ⟨hq, _⟩
  · rw [he, ← Option.some.inj (hpush.symm.trans hq)]
  · cases hpush.symm.trans hq

/-- **After a suspended step** nothing more is stored and shown than the use of the pulses. -/
theorem akin_paused {n : Nat} {a₀ e₀ a : Engine} (h : Akin i n a₀ e₀ a e) {s : ScpiProgress}
    (hp : e.progress? i c = some (.scpi s)) (hroom : e.queue.size < e.queue.capacity) :
    Akin i n { a₀ with executing := none } e₀ { a.resetSequenceInputs i c with executing := none }
      (e.paused i c)
    ∧ (e.paused i c).progress? i c = some (.scpi s) := by
  generalize hq : ({ e.endStep i c true with
      queue := ⟨e.queue.tasks ++ [⟨i, c, true⟩], e.queue.capacity⟩ } : Engine).record
    (.pushed ⟨i, c, true⟩) = q
  have hlater : settleOutcome i c (.ok .suspended e) = q := by
    rw [← hq]
    exact continueLater_of_room (e := e.endStep i c true) hroom
  have hqueued : Akin i n { a₀ with executing := none } e₀ { a with executing := none } q := by
    rw [← hq]
    obtain ⟨own, hsa, hse, hown⟩ := h.trace
    refine ⟨h.storage, rfl, rfl, h.stopRequested, h.stopped, h.capacity, ?_, h.fixture,
      h.dispatcher, h.grown.trans (List.suffix_append [_, _] e.journal), own, hsa, hse, hown⟩
    have hsize := h.size
    simp only [TaskQueue.size, record, endStep, List.length_append] at hsize ⊢
    omega
  have hreset := hqueued.resetSequenceInputs i c
  rw [resetSequenceInputs_executing] at hreset
  have hkept : (q.resetSequenceInputs i c).progress? i c = some (.scpi s) := by
    have hmute : Mute noOne q (q.resetSequenceInputs i c) := Mute.tolerant.resetSequenceInputs q i c
    rw [hmute.progress i c rfl, ← hq]
    exact hp
  have hpaused : e.paused i c = (q.resetSequenceInputs i c).record (.settled i c) := by
    have hsettled : ((q.resetSequenceInputs i c).record (.settled i c)).isCollectible i = false :=
      not_isCollectible_of_scpi (s := s) hkept
    unfold paused tidy collect
    rw [hlater, hsettled]
    rfl
  rw [hpaused]
  exact ⟨hreset.unseen rfl rfl [.settled i c] rfl rfl, hkept⟩

end

end InstrumentFlow.Engine
