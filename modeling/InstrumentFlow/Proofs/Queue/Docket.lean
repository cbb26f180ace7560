import InstrumentFlow.Engine.Event
import Mathlib.Data.List.Basic

/-!
# Dockets

The journal tells what became of every task of the queue: it came into the queue, it had its turn,
it was dropped with its instance, or it was dropped at the end of the run. A docket keeps a ticket
for each task, in the order in which the tasks came.

* `pushes`, `takes`, `steps` -- the tasks that came, that had their turn, and whose steps began;
* `Turnover`, `Turnovers` -- what a queue holds before and after events;
* `Fate`, `Ticket`, `follow`, `docket` -- what the events say of every task;
* `Turnovers.docket` -- **a queue holds just what its docket says**, in order.
-/

namespace InstrumentFlow

/-! ## 1. Events of the queue -/

namespace Event

/-- The task that came into the queue. -/
def pushed? : Event → Option Task
  | pushed t => some t
  | _ => none

/-- The task whose turn came. -/
def taken? : Event → Option Task
  | taken t => some t
  | _ => none

/-- The task whose step began. -/
def stepped? : Event → Option Task
  | stepped t => some t
  | _ => none

/-- Whether a task had its turn, or its step began. -/
def isStart : Event → Bool
  | taken _ | stepped _ => true
  | _ => false

/-- Whether the event changes what the queue holds. -/
def isTurnover : Event → Bool
  | pushed _ | taken _ | destroyed _ | halted => true
  | _ => false

end Event

/-- The tasks of some of the events, in order; the events have the latest first. -/
def picks (pick : Event → Option Task) (events : List Event) : List Task :=
  events.reverse.filterMap pick

/-- The tasks that came into the queue, in order. -/
def pushes (events : List Event) : List Task := picks Event.pushed? events

/-- The tasks that had their turn, in order. -/
def takes (events : List Event) : List Task := picks Event.taken? events

/-- The tasks whose steps began, in order. -/
def steps (events : List Event) : List Task := picks Event.stepped? events

theorem picks_cons (pick : Event → Option Task) (event : Event) (events : List Event) :
    picks pick (event :: events) = picks pick events ++ (pick event).toList := by
  unfold picks
  rw [List.reverse_cons, List.filterMap_append]
  cases h : pick event <;> simp [h]

theorem picks_append (pick : Event → Option Task) (events' events : List Event) :
    picks pick (events' ++ events) = picks pick events ++ picks pick events' := by
  unfold picks
  rw [List.reverse_append, List.filterMap_append]

theorem picks_eq_nil {pick : Event → Option Task} {events : List Event}
    (h : ∀ event ∈ events, pick event = none) : picks pick events = [] :=
  List.filterMap_eq_nil_iff.mpr fun event he => h event (List.mem_reverse.mp he)

theorem Event.taken?_eq_none {event : Event} (h : event.isStart = false) : event.taken? = none := by
  cases event with
  | taken _ => cases h
  | _ => rfl

theorem Event.stepped?_eq_none {event : Event} (h : event.isStart = false) :
    event.stepped? = none := by
  cases event with
  | stepped _ => cases h
  | _ => rfl

/-- No task had its turn, and no step began. -/
theorem starts_eq_nil {events : List Event} (h : ∀ event ∈ events, event.isStart = false) :
    takes events = [] ∧ steps events = [] :=
  ⟨picks_eq_nil fun event he => Event.taken?_eq_none (h event he),
    picks_eq_nil fun event he => Event.stepped?_eq_none (h event he)⟩

/-! ## 2. Turnover -/

/-- **What a queue of such a capacity holds** before and after one event. -/
inductive Turnover (capacity : Nat) : List Task → Event → List Task → Prop
  | push {q : List Task} (t : Task) (h : q.length < capacity) :
      Turnover capacity q (.pushed t) (q ++ [t])
  /-- The turn of the first task comes. -/
  | take (t : Task) (q : List Task) : Turnover capacity (t :: q) (.taken t) q
  /-- The tasks of an instance are dropped with it. -/
  | drop (q : List Task) (i : InstanceId) :
      Turnover capacity q (.destroyed i) (q.filter (·.instanceId != i))
  | clear (q : List Task) : Turnover capacity q .halted []
  | rest (q : List Task) {event : Event} (h : event.isTurnover = false) :
      Turnover capacity q event q

/-- What a queue holds before and after events, the latest first. -/
inductive Turnovers (capacity : Nat) (q : List Task) : List Event → List Task → Prop
  | nil : Turnovers capacity q [] q
  | cons {events : List Event} {q' q'' : List Task} {event : Event}
      (h : Turnovers capacity q events q') (hs : Turnover capacity q' event q'') :
      Turnovers capacity q (event :: events) q''

namespace Turnovers

variable {capacity : Nat} {q q' q'' : List Task} {events events' : List Event}

theorem single {event : Event} (h : Turnover capacity q event q') :
    Turnovers capacity q [event] q' := .cons .nil h

theorem append (h : Turnovers capacity q events q') (h' : Turnovers capacity q' events' q'') :
    Turnovers capacity q (events' ++ events) q'' := by
  induction h' with
  | nil => exact h
  | cons _ hs ih => exact .cons ih hs

/-- What the queue held in between. -/
theorem split (h : Turnovers capacity q (events' ++ events) q'') :
    ∃ q', Turnovers capacity q events q' ∧ Turnovers capacity q' events' q'' := by
  induction events' generalizing q'' with
  | nil => exact ⟨q'', h, .nil⟩
  | cons event events' ih =>
    cases h with
    | cons h hs =>
      obtain ⟨q', hq, hq'⟩ := ih h
      exact ⟨q', hq, hq'.cons hs⟩

/-- Events that change nothing. -/
theorem rest (h : ∀ event ∈ events, event.isTurnover = false) :
    Turnovers capacity q events q := by
  induction events with
  | nil => exact .nil
  | cons event events ih =>
    exact .cons (ih fun event' he => h event' (List.mem_cons_of_mem event he))
      (.rest q (h event List.mem_cons_self))

/-- **The queue never exceeds its capacity.** -/
theorem length_le (h : Turnovers capacity q events q') (hq : q.length ≤ capacity) :
    q'.length ≤ capacity := by
  induction h with
  | nil => exact hq
  | cons _ hs ih =>
    cases hs with
    | push t hlt =>
      rw [List.length_append]
      exact hlt
    | take t q => exact Nat.le_of_succ_le ih
    | drop q i => exact Nat.le_trans (List.length_filter_le _ _) ih
    | clear _ => exact Nat.zero_le capacity
    | rest _ _ => exact ih

end Turnovers

/-! ## 3. Tickets -/

/-- What became of a task. -/
inductive Fate where
  | queued
  /-- Its turn came. -/
  | taken
  /-- It was dropped with its instance, or at the end of the run. -/
  | dropped
  deriving DecidableEq, Repr

structure Ticket where
  task : Task
  fate : Fate := .queued
  deriving DecidableEq, Repr

namespace Ticket

/-- The task is dropped, if it is still queued. -/
def drop (k : Ticket) : Ticket := if k.fate = .queued then { k with fate := .dropped } else k

theorem task_drop (k : Ticket) : k.drop.task = k.task := by
  unfold drop
  split <;> rfl

end Ticket

/-- The first task that is queued has its turn. -/
def takeFirst : List Ticket → List Ticket
  | [] => []
  | k :: ks => if k.fate = .queued then { k with fate := .taken } :: ks else k :: takeFirst ks

/-- **What an event says of the tasks.** -/
def follow (ks : List Ticket) : Event → List Ticket
  | .pushed t => ks ++ [⟨t, .queued⟩]
  | .taken _ => takeFirst ks
  | .destroyed i => ks.map fun k => if k.task.instanceId = i then k.drop else k
  | .halted => ks.map Ticket.drop
  | _ => ks

/-- **The docket** of a queue: the tasks that it held, followed by those that came, each with its
    fate after the events, which have the latest first. -/
def docket (q : List Task) (events : List Event) : List Ticket :=
  events.foldr (fun event ks => follow ks event) (q.map fun t => ⟨t, .queued⟩)

/-- The tasks with a fate, in the order of the docket. -/
def withFate (fate : Fate) (ks : List Ticket) : List Task :=
  (ks.filter (·.fate = fate)).map Ticket.task

theorem withFate_cons (fate : Fate) (k : Ticket) (ks : List Ticket) :
    withFate fate (k :: ks) = if k.fate = fate then k.task :: withFate fate ks
      else withFate fate ks := by
  unfold withFate
  by_cases h : k.fate = fate <;> simp [h]

theorem withFate_append (fate : Fate) (ks ks' : List Ticket) :
    withFate fate (ks ++ ks') = withFate fate ks ++ withFate fate ks' := by
  unfold withFate
  rw [List.filter_append, List.map_append]

theorem withFate_eq_nil {fate : Fate} {ks : List Ticket} (h : ∀ k ∈ ks, k.fate ≠ fate) :
    withFate fate ks = [] := by
  unfold withFate
  rw [List.map_eq_nil_iff, List.filter_eq_nil_iff]
  simpa using h

theorem withFate_sublist (fate : Fate) (ks : List Ticket) :
    (withFate fate ks).Sublist (ks.map Ticket.task) := List.filter_sublist.map Ticket.task

/-! ## 4. What becomes of the tickets -/

/-- **The tickets agree with what is queued and with who had a turn**, and no task had its turn
    before another that came earlier and is still queued. -/
structure Tallies (ks : List Ticket) (queued taken : List Task) : Prop where
  queued_eq : withFate .queued ks = queued
  taken_eq : withFate .taken ks = taken
  order : ks.Pairwise fun k k' => k.fate = .queued → k'.fate ≠ .taken

theorem task_takeFirst (ks : List Ticket) :
    (takeFirst ks).map Ticket.task = ks.map Ticket.task := by
  induction ks with
  | nil => rfl
  | cons k ks ih =>
    unfold takeFirst
    split
    · rfl
    · rw [List.map_cons, List.map_cons, ih]

theorem fate_takeFirst {ks : List Ticket} {k' : Ticket} (h : k' ∈ takeFirst ks) :
    k'.fate = .taken ∨ k' ∈ ks := by
  induction ks with
  | nil => cases h
  | cons k ks ih =>
    unfold takeFirst at h
    split at h
    · rcases List.mem_cons.mp h with rfl | h
      · exact Or.inl rfl
      · exact Or.inr (List.mem_cons_of_mem k h)
    · rcases List.mem_cons.mp h with rfl | h
      · exact Or.inr List.mem_cons_self
      · exact (ih h).imp_right (List.mem_cons_of_mem k)

namespace Tallies

theorem start (q : List Task) : Tallies (q.map fun t => ⟨t, .queued⟩) q [] where
  queued_eq := by
    induction q with
    | nil => rfl
    | cons t q ih => rw [List.map_cons, withFate_cons, if_pos rfl, ih]
  taken_eq := withFate_eq_nil fun k hk => by
    obtain ⟨t, _, rfl⟩ := List.mem_map.mp hk
    exact fun h => nomatch h
  order := by
    refine List.pairwise_map.mpr (List.pairwise_of_forall fun t t' _ => ?_)
    exact fun h => nomatch h

section

variable {ks : List Ticket} {queued taken : List Task} (h : Tallies ks queued taken)
include h

theorem push (t : Task) : Tallies (ks ++ [⟨t, .queued⟩]) (queued ++ [t]) taken where
  queued_eq := by rw [withFate_append, h.queued_eq]; rfl
  taken_eq := by rw [withFate_append, h.taken_eq]; exact List.append_nil taken
  order := by
    refine List.pairwise_append.mpr ⟨h.order, List.pairwise_singleton _ _, fun k _ k' hk' _ => ?_⟩
    rw [List.mem_singleton.mp hk']
    exact fun h => nomatch h

end

/-- The turn of the first task that is queued: it comes after all that had their turn. -/
theorem take {ks : List Ticket} {t : Task} {q taken : List Task} (h : Tallies ks (t :: q) taken) :
    Tallies (takeFirst ks) q (taken ++ [t]) := by
  -- along the tickets, up to the first that is queued
  induction ks generalizing taken with
  | nil => cases h.queued_eq
  | cons k ks ih =>
    obtain ⟨hqueued, htaken, horder⟩ := h
    obtain ⟨hbehind, horder⟩ := List.pairwise_cons.mp horder
    rw [withFate_cons] at hqueued htaken
    unfold takeFirst
    by_cases hk : k.fate = .queued
    · have hnone : withFate .taken ks = [] := withFate_eq_nil fun k' hk' => hbehind k' hk' hk
      rw [if_pos hk] at hqueued ⊢
      rw [if_neg (by rw [hk]; exact fun h => nomatch h), hnone] at htaken
      obtain ⟨rfl, rfl⟩ := List.cons.inj hqueued
      subst htaken
      refine ⟨?_, ?_, ?_⟩
      · rw [withFate_cons, if_neg fun h => nomatch h]
      · rw [withFate_cons, if_pos rfl, hnone]
        rfl
      · exact List.pairwise_cons.mpr ⟨fun k' _ h => (nomatch h), horder⟩
    · rw [if_neg hk] at hqueued ⊢
      have hrest := ih ⟨hqueued, rfl, horder⟩
      refine ⟨?_, ?_, ?_⟩
      · rw [withFate_cons, if_neg hk, hrest.queued_eq]
      · rw [withFate_cons, hrest.taken_eq, ← htaken]
        split <;> rfl
      · exact List.pairwise_cons.mpr ⟨fun _ _ h => absurd h hk, hrest.order⟩

/-- Where no task is dropped, those that had their turn are in front of those that are queued. -/
theorem taken_append_queued {ks : List Ticket} {queued taken : List Task}
    (h : Tallies ks queued taken) (hn : ∀ k ∈ ks, k.fate ≠ .dropped) :
    taken ++ queued = ks.map Ticket.task := by
  rw [← h.taken_eq, ← h.queued_eq]
  have horder := h.order
  clear h
  induction ks with
  | nil => rfl
  | cons k ks ih =>
    obtain ⟨hbehind, horder⟩ := List.pairwise_cons.mp horder
    have ih := ih (fun k' hk' => hn k' (List.mem_cons_of_mem k hk')) horder
    rw [withFate_cons, withFate_cons, List.map_cons]
    cases hk : k.fate with
    | queued =>
      have hnone : withFate .taken ks = [] := withFate_eq_nil fun k' hk' => hbehind k' hk' hk
      rw [hnone, List.nil_append] at ih
      rw [if_neg (fun h => nomatch h), if_pos rfl, hnone, ih]
      rfl
    | taken =>
      rw [if_pos rfl, if_neg (fun h => nomatch h), ← ih]
      rfl
    | dropped => exact absurd hk (hn k List.mem_cons_self)

/-- Some of the queued tasks are dropped. -/
theorem drop {ks : List Ticket} {queued taken : List Task} (h : Tallies ks queued taken)
    (p : Task → Bool) :
    Tallies (ks.map fun k => if p k.task then k.drop else k) (queued.filter (!p ·)) taken := by
  have hfate (k : Ticket) (fate : Fate) (hf : fate ≠ .dropped)
      (hd : (if p k.task then k.drop else k).fate = fate) : k.fate = fate := by
    unfold Ticket.drop at hd
    split at hd
    · split at hd
      · exact absurd hd.symm hf
      · exact hd
    · exact hd
  refine ⟨?_, ?_, ?_⟩
  · rw [← h.queued_eq]
    clear h
    induction ks with
    | nil => rfl
    | cons k ks ih =>
      rw [List.map_cons, withFate_cons, withFate_cons, ih]
      unfold Ticket.drop
      by_cases hk : k.fate = .queued <;> by_cases hp : p k.task <;> simp [hk, hp]
  · rw [← h.taken_eq]
    clear h
    induction ks with
    | nil => rfl
    | cons k ks ih =>
      rw [List.map_cons, withFate_cons, withFate_cons, ih]
      unfold Ticket.drop
      by_cases hk : k.fate = .queued <;> by_cases hp : p k.task <;> simp [hk, hp]
  · refine List.pairwise_map.mpr (h.order.imp fun {k k'} himp hq ht => ?_)
    exact himp (hfate k _ (fun h => nomatch h) hq) (hfate k' _ (fun h => nomatch h) ht)

end Tallies

theorem task_follow (ks : List Ticket) (event : Event) :
    (follow ks event).map Ticket.task = ks.map Ticket.task ++ event.pushed?.toList := by
  unfold follow
  split
  · rw [List.map_append]
    rfl
  · rw [task_takeFirst]
    exact (List.append_nil _).symm
  · rw [List.map_map]
    refine Eq.trans (List.map_congr_left fun k _ => ?_) (List.append_nil _).symm
    dsimp only [Function.comp]
    split
    · exact k.task_drop
    · rfl
  · rw [List.map_map]
    exact Eq.trans (List.map_congr_left fun k _ => k.task_drop) (List.append_nil _).symm
  · next h _ _ _ =>
    have hnone : event.pushed? = none := by
      cases event with
      | pushed t => exact absurd rfl (h t)
      | _ => rfl
    rw [hnone]
    exact (List.append_nil _).symm

/-- **The docket follows the queue** through every event. -/
theorem Turnover.tallies {capacity : Nat} {q q' : List Task} {event : Event}
    (ht : Turnover capacity q event q') {ks : List Ticket} {taken : List Task}
    (h : Tallies ks q taken) : Tallies (follow ks event) q' (taken ++ event.taken?.toList) := by
  cases ht with
  | push t _ => exact (List.append_nil taken).symm ▸ h.push t
  | take t q => exact h.take
  | drop q i =>
    have hdrop := h.drop fun t => t.instanceId == i
    simp only [beq_iff_eq] at hdrop
    exact (List.append_nil taken).symm ▸ hdrop
  | clear q =>
    have hdrop := h.drop fun _ => true
    simp only [if_true, Bool.not_true, List.filter_false] at hdrop
    exact (List.append_nil taken).symm ▸ hdrop
  | rest q hrest =>
    cases event with
    | pushed _ | taken _ | destroyed _ | halted => cases hrest
    | _ => exact (List.append_nil taken).symm ▸ h

namespace Turnovers

variable {capacity : Nat} {q q' : List Task} {events : List Event}

/-- **A docket lists the tasks that were queued and those that came**, in order. -/
theorem task_docket (q : List Task) (events : List Event) :
    (docket q events).map Ticket.task = q ++ pushes events := by
  induction events with
  | nil =>
    show (q.map fun t => (⟨t, .queued⟩ : Ticket)).map Ticket.task = q ++ []
    rw [List.map_map, List.append_nil]
    exact List.map_id q
  | cons event events ih =>
    show (follow (docket q events) event).map Ticket.task = _
    unfold pushes
    rw [task_follow, ih, picks_cons, ← List.append_assoc]
    rfl

/-- Tasks are dropped with their instance, or at the end of the run. -/
theorem dropped_docket {k : Ticket} (hk : k ∈ docket q events) (hf : k.fate = .dropped) :
    .destroyed k.task.instanceId ∈ events ∨ .halted ∈ events := by
  induction events generalizing k with
  | nil =>
    obtain ⟨t, _, rfl⟩ := List.mem_map.mp hk
    cases hf
  | cons event events ih =>
    have hold {k : Ticket} (hk : k ∈ docket q events) (hf : k.fate = .dropped) :
        .destroyed k.task.instanceId ∈ event :: events ∨ .halted ∈ event :: events :=
      (ih hk hf).imp (List.mem_cons_of_mem event) (List.mem_cons_of_mem event)
    change k ∈ follow (docket q events) event at hk
    unfold follow at hk
    split at hk
    · rcases List.mem_append.mp hk with hk | hk
      · exact hold hk hf
      · rw [List.mem_singleton.mp hk] at hf
        cases hf
    · rcases fate_takeFirst hk with ht | hk
      · rw [ht] at hf
        cases hf
      · exact hold hk hf
    · next i =>
      obtain ⟨k₀, hk₀, rfl⟩ := List.mem_map.mp hk
      by_cases hi : k₀.task.instanceId = i
      · refine Or.inl ?_
        rw [if_pos hi]
        rw [k₀.task_drop, hi]
        exact List.mem_cons_self
      · rw [if_neg hi] at hf ⊢
        exact hold hk₀ hf
    · exact Or.inr List.mem_cons_self
    · exact hold hk hf

/-- **A queue holds just what its docket says**, and the tasks had their turn in its order. -/
theorem tallies (h : Turnovers capacity q events q') :
    Tallies (docket q events) q' (takes events) := by
  induction h with
  | nil => exact Tallies.start q
  | @cons events q₁ q₂ event _ hs ih =>
    unfold takes
    rw [picks_cons]
    exact hs.tallies ih

/-- After the end of a run only tasks are queued that came later. -/
theorem sublist_of_halted {later earlier : List Event}
    (h : Turnovers capacity q (later ++ .halted :: earlier) q') : q'.Sublist (pushes later) := by
  obtain ⟨q₁, hfirst, hlater⟩ := h.split
  cases hfirst with
  | cons _ hs =>
    cases hs with
    | rest _ hrest => cases hrest
    | clear _ =>
      rw [← hlater.tallies.queued_eq, ← List.nil_append (pushes later), ← task_docket]
      exact withFate_sublist .queued (docket [] later)

end Turnovers

end InstrumentFlow
