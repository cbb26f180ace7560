import InstrumentFlow.Engine.Event
import Mathlib.Data.List.Infix

/-!
# A component and the instrument

What a component has to do with the instrument, as the journal tells it.

* `Exchange` -- the request whose answer a component waits for, if there is one;
* `exchange` -- how that comes about, event after event;
* `Event.disturbs` -- the events that have to do with it;
* `lastRequest?` -- the request that was sent last; what is waited for is that;
* `InTurn` -- a component sends one request at a time and collects what it waits for;
* `Event.releases`, `InTurn.outstanding?_kept` -- until when it waits.
-/

namespace InstrumentFlow

open Scpi

/-! ## 1. Events -/

namespace Event

/-- A request is sent, or an answer collected. -/
def isSpeech : Event → Bool
  | dispatched _ _ _ | collected _ _ _ _ => true
  | _ => false

/-- Whether an event changes what a component has to do with the instrument. -/
def disturbs (i : InstanceId) (c : Nat) : Event → Bool
  | dispatched j k _ | collected j k _ _ | ended j k _ | progressChanged j k => j = i ∧ k = c
  | stepped t => t.instanceId = i ∧ t.component = c
  | destroyed j => j = i
  | _ => false

/-- Whether an event changes what some component has to do with the instrument, those aside of which
    it only tells that their progress changed. -/
def disturbsBut (own : InstanceId → Nat → Bool) : Event → Bool
  | progressChanged j k => !own j k
  | dispatched _ _ _ | collected _ _ _ _ | ended _ _ _ | stepped _ | destroyed _ => true
  | _ => false

theorem disturbsBut_of_disturbs {own : InstanceId → Nat → Bool} {i : InstanceId} {c : Nat}
    (ho : own i c = false) {event : Event} (h : event.disturbs i c = true) :
    event.disturbsBut own = true := by
  cases event with
  | progressChanged j k =>
    obtain ⟨rfl, rfl⟩ := of_decide_eq_true h
    show (!own j k) = true
    rw [ho]
    rfl
  | dispatched _ _ _ | collected _ _ _ _ | ended _ _ _ | stepped _ | destroyed _ => rfl
  | _ => cases h

theorem disturbsBut_of_isSpeech {own : InstanceId → Nat → Bool} {event : Event}
    (h : event.isSpeech = true) : event.disturbsBut own = true := by
  cases event with
  | dispatched _ _ _ | collected _ _ _ _ => rfl
  | _ => cases h

end Event

/-! ## 2. What a component waits for -/

/-- **What a component has to do with the instrument.** -/
structure Exchange where
  /-- The request that was sent last, as long as its answer was not collected and the component did
      not lose the progress in which it waits for that. -/
  outstanding : Option Request := none
  /-- A step of the component is running. It takes the progress away and puts it back. -/
  running : Bool := false
  deriving DecidableEq, Repr

/-- After an event. A step that does not end in the middle of the work leaves no progress. Between
    its steps a component loses its progress where that changes, and with its instance. -/
def Exchange.heed (i : InstanceId) (c : Nat) (x : Exchange) (event : Event) : Exchange :=
  if event.disturbs i c then
    match event with
    | .dispatched _ _ r => { x with outstanding := some r }
    | .collected _ _ _ _ => { x with outstanding := none }
    | .stepped _ => { x with running := true }
    | .ended _ _ midway => { outstanding := if midway then x.outstanding else none }
    | .progressChanged _ _ => if x.running then x else { x with outstanding := none }
    | .destroyed _ => { x with outstanding := none }
    | _ => x
  else x

/-- **What a component has to do with the instrument** after all that happened, the latest first. -/
def exchange (i : InstanceId) (c : Nat) : List Event → Exchange
  | [] => {}
  | event :: earlier => (exchange i c earlier).heed i c event

/-- The answer to this is still waited for, or was to be. -/
def outstanding? (i : InstanceId) (c : Nat) (events : List Event) : Option Request :=
  (exchange i c events).outstanding

/-- The request of a component, if the event tells of one. -/
def Event.requestOf? (i : InstanceId) (c : Nat) : Event → Option Request
  | dispatched j k r => if j = i ∧ k = c then some r else none
  | _ => none

/-- The request that a component sent last. -/
def lastRequest? (i : InstanceId) (c : Nat) (events : List Event) : Option Request :=
  events.findSome? (Event.requestOf? i c)

section

variable {i : InstanceId} {c : Nat} {events news : List Event}

theorem Exchange.heed_of_not_disturbs {x : Exchange} {event : Event}
    (h : event.disturbs i c = false) : x.heed i c event = x := by
  unfold heed
  rw [h]
  rfl

theorem exchange_cons_of_not_disturbs {event : Event} (h : event.disturbs i c = false) :
    exchange i c (event :: events) = exchange i c events := Exchange.heed_of_not_disturbs h

theorem exchange_append (h : ∀ event ∈ news, event.disturbs i c = false) :
    exchange i c (news ++ events) = exchange i c events := by
  induction news with
  | nil => rfl
  | cons event news ih =>
    rw [List.cons_append, exchange_cons_of_not_disturbs (h event List.mem_cons_self)]
    exact ih fun event' hmem => h event' (List.mem_cons_of_mem event hmem)

variable (i c events) in
theorem exchange_dispatched (r : Request) :
    exchange i c (.dispatched i c r :: events)
      = { exchange i c events with outstanding := some r } := by
  show (exchange i c events).heed i c _ = _
  unfold Exchange.heed
  simp [Event.disturbs]

variable (i c events) in
theorem exchange_collected (transaction : Nat) (response : Response) :
    exchange i c (.collected i c transaction response :: events)
      = { exchange i c events with outstanding := none } := by
  show (exchange i c events).heed i c _ = _
  unfold Exchange.heed
  simp [Event.disturbs]

theorem exchange_stepped (continuous : Bool) :
    exchange i c (.stepped ⟨i, c, continuous⟩ :: events)
      = { exchange i c events with running := true } := by
  show (exchange i c events).heed i c _ = _
  unfold Exchange.heed
  simp [Event.disturbs]

theorem exchange_ended (midway : Bool) :
    exchange i c (.ended i c midway :: events)
      = { outstanding := if midway then outstanding? i c events else none } := by
  show (exchange i c events).heed i c _ = _
  unfold Exchange.heed outstanding?
  simp [Event.disturbs]

theorem exchange_progressChanged :
    exchange i c (.progressChanged i c :: events)
      = if (exchange i c events).running then exchange i c events
        else { exchange i c events with outstanding := none } := by
  show (exchange i c events).heed i c _ = _
  unfold Exchange.heed
  simp [Event.disturbs]

/-- During a step a component keeps its request, whatever is told of its progress. -/
theorem exchange_append_of_running {own : InstanceId → Nat → Bool}
    (hn : ∀ event ∈ news, event.disturbsBut own = false)
    (hr : (exchange i c events).running = true) :
    exchange i c (news ++ events) = exchange i c events := by
  induction news with
  | nil => rfl
  | cons event news ih =>
    have hrest := ih fun event' hmem => hn event' (List.mem_cons_of_mem event hmem)
    have hbarred := hn event List.mem_cons_self
    rw [List.cons_append, ← hrest]
    rw [← hrest] at hr
    cases event with
    | progressChanged j k =>
      by_cases hpair : j = i ∧ k = c
      · obtain ⟨rfl, rfl⟩ := hpair
        rw [exchange_progressChanged, if_pos hr]
      · exact exchange_cons_of_not_disturbs (decide_eq_false hpair)
    | dispatched _ _ _ | collected _ _ _ _ | ended _ _ _ | stepped _ | destroyed _ => cases hbarred
    | _ => exact exchange_cons_of_not_disturbs rfl

variable (i c events) in
theorem exchange_destroyed :
    exchange i c (.destroyed i :: events) = { exchange i c events with outstanding := none } := by
  show (exchange i c events).heed i c _ = _
  unfold Exchange.heed
  simp [Event.disturbs]

/-- Nobody waits for an answer without a request. -/
theorem Exchange.heed_none {x : Exchange} (h : x.outstanding = none) {event : Event}
    (hs : event.isSpeech = false) : (x.heed i c event).outstanding = none := by
  unfold heed
  split
  · cases event with
    | dispatched _ _ _ => cases hs
    | ended _ _ midway => cases midway <;> simp [h]
    | progressChanged _ _ => cases x.running <;> simp [h]
    | destroyed _ | collected _ _ _ _ => rfl
    | _ => exact h
  · exact h

theorem outstanding?_append_none (h : outstanding? i c events = none)
    (hs : ∀ event ∈ news, event.isSpeech = false) : outstanding? i c (news ++ events) = none := by
  induction news with
  | nil => exact h
  | cons event news ih =>
    have hrest := ih fun event' hmem => hs event' (List.mem_cons_of_mem event hmem)
    exact Exchange.heed_none hrest (hs event List.mem_cons_self)

/-- **What is waited for was sent last.** -/
theorem lastRequest?_of_outstanding? {r : Request} (h : outstanding? i c events = some r) :
    lastRequest? i c events = some r := by
  induction events with
  | nil => cases h
  | cons event events ih =>
    have hrest (hn : event.requestOf? i c = none) (he : outstanding? i c events = some r) :
        lastRequest? i c (event :: events) = some r := by
      unfold lastRequest?
      rw [List.findSome?_cons, hn]
      exact ih he
    change ((exchange i c events).heed i c event).outstanding = some r at h
    unfold Exchange.heed at h
    split at h
    · next hd =>
      cases event with
      | dispatched j k r' =>
        have hsent : (Event.dispatched j k r').requestOf? i c = some r' := if_pos (of_decide_eq_true hd)
        unfold lastRequest?
        rw [List.findSome?_cons, hsent]
        exact h
      | collected _ _ _ _ | destroyed _ => cases h
      | ended _ _ midway =>
        cases midway with
        | true => exact hrest rfl h
        | false => cases h
      | progressChanged _ _ =>
        dsimp only at h
        split at h
        · exact hrest rfl h
        · cases h
      | _ => exact hrest rfl h
    · next hd =>
      refine hrest ?_ h
      cases event with
      | dispatched j k r' => exact if_neg (of_decide_eq_false (Bool.eq_false_iff.mpr hd))
      | _ => rfl

end

/-! ## 3. One request at a time -/

/-- Whether an event may follow: a request is sent when no answer is waited for, and the answer is
    collected that is waited for. -/
def Exchange.Admits (i : InstanceId) (c : Nat) (x : Exchange) : Event → Prop
  | .dispatched j k _ => j = i → k = c → x.outstanding = none
  | .collected j k transaction _ =>
    j = i → k = c → ∃ r, x.outstanding = some r ∧ r.transaction = transaction
  | _ => True

/-- **A component sends one request at a time** and collects what it waits for. -/
def InTurn (i : InstanceId) (c : Nat) (events : List Event) : Prop :=
  ∀ event earlier, event :: earlier <:+ events → (exchange i c earlier).Admits i c event

theorem Exchange.admits_of_not_isSpeech {i : InstanceId} {c : Nat} (x : Exchange) {event : Event}
    (h : event.isSpeech = false) : x.Admits i c event := by
  cases event with
  | dispatched _ _ _ | collected _ _ _ _ => cases h
  | _ => trivial

namespace InTurn

variable {i : InstanceId} {c : Nat} {events news : List Event}

theorem nil (i : InstanceId) (c : Nat) : InTurn i c [] := fun _ _ h => by
  cases List.suffix_nil.mp h

theorem cons {event : Event} (h : InTurn i c events)
    (ha : (exchange i c events).Admits i c event) : InTurn i c (event :: events) := by
  intro event' earlier hs
  rcases List.suffix_cons_iff.mp hs with heq | hs
  · obtain ⟨rfl, rfl⟩ := List.cons.inj heq
    exact ha
  · exact h event' earlier hs

/-- What is not said needs no permission. -/
theorem append (h : InTurn i c events)
    (hn : ∀ event ∈ news, ∀ x : Exchange, x.Admits i c event) : InTurn i c (news ++ events) := by
  induction news with
  | nil => exact h
  | cons event news ih =>
    refine (ih fun event' hmem => hn event' (List.mem_cons_of_mem event hmem)).cons ?_
    exact hn event List.mem_cons_self _

theorem tail {event : Event} (h : InTurn i c (event :: events)) : InTurn i c events :=
  fun event' earlier hs => h event' earlier (hs.trans (List.suffix_cons event events))

end InTurn

/-- Whether an event ends the waiting of a component for a transaction: the answer is collected, a
    step ends that does not leave the component in the middle of its work, or the progress in which
    it waits goes, be it with its instance. -/
def Event.releases (i : InstanceId) (c transaction : Nat) : Event → Bool
  | collected j k n _ => j = i ∧ k = c ∧ n = transaction
  | ended j k midway => j = i ∧ k = c ∧ midway = false
  | progressChanged j k => j = i ∧ k = c
  | destroyed j => j = i
  | _ => false

/-- **A component waits** for the answer to a request until it collects that, or it is released. -/
theorem InTurn.outstanding?_kept {i : InstanceId} {c : Nat} {r : Request}
    {earlier news : List Event} (h : InTurn i c (news ++ .dispatched i c r :: earlier))
    (hn : ∀ event ∈ news, event.releases i c r.transaction = false) :
    outstanding? i c (news ++ .dispatched i c r :: earlier) = some r := by
  induction news with
  | nil => exact congrArg Exchange.outstanding (exchange_dispatched _ _ _ r)
  | cons event news ih =>
    have hrest := ih h.tail fun event' hmem => hn event' (List.mem_cons_of_mem event hmem)
    have hadmits := h event (news ++ .dispatched i c r :: earlier) (List.suffix_refl _)
    have hkept := hn event List.mem_cons_self
    unfold outstanding? at hrest
    show ((exchange i c (news ++ .dispatched i c r :: earlier)).heed i c event).outstanding = some r
    generalize exchange i c (news ++ .dispatched i c r :: earlier) = x at hrest hadmits
    unfold Exchange.heed
    split
    · next hd =>
      cases event with
      | dispatched j k r' =>
        obtain ⟨hj, hk⟩ := of_decide_eq_true hd
        cases hrest.symm.trans (hadmits hj hk)
      | collected j k n response =>
        obtain ⟨hj, hk⟩ := of_decide_eq_true hd
        obtain ⟨r', hr', htransaction⟩ := hadmits hj hk
        obtain rfl : r = r' := Option.some.inj (hrest.symm.trans hr')
        exact absurd ⟨hj, hk, htransaction.symm⟩ (of_decide_eq_false hkept)
      | ended j k midway =>
        obtain ⟨hj, hk⟩ := of_decide_eq_true hd
        cases midway with
        | true => exact hrest
        | false => exact absurd ⟨hj, hk, rfl⟩ (of_decide_eq_false hkept)
      | progressChanged j k => exact absurd (of_decide_eq_true hd) (of_decide_eq_false hkept)
      | destroyed j => exact absurd (of_decide_eq_true hd) (of_decide_eq_false hkept)
      | _ => exact hrest
    · exact hrest

end InstrumentFlow
