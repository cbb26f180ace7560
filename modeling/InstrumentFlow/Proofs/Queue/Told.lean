import InstrumentFlow.Proofs.Engine.Run
import InstrumentFlow.Proofs.Queue.Docket

/-!
# The journal tells what becomes of the queue

Every change of the queue stands in the journal, every task that is refused is answered by a fatal
error at once, and a stop that a fatal error asks for stays pending up to the end of the run or a
new start.

* `heed`, `Answered` -- what events say of a pending stop and of refused tasks;
* `Told` -- the news between two states tell what became of the queue;
* `ToldWithout`, `Tells` -- there are news, and none of them is barred;
* `Strokes.tells`, `Paces.tells` -- no task has its turn in strokes and paces;
* `told_turn`, `Leaps.told` -- a turn of a task and all leaps are told;
* `Deeds.told` -- in deeds no task has its turn.
-/

namespace InstrumentFlow

/-! ## 1. Refused tasks and pending stops -/

namespace Event

/-- Whether an event tells of turns, steps and the limits of a run. -/
def isTurn : Event → Bool
  | taken _ | stepped _ | ended _ _ _ | discarded _ | restarted | halted => true
  | _ => false

/-- Whether an event tells of turns, steps and beginnings of a run. -/
def isAct : Event → Bool
  | taken _ | stepped _ | ended _ _ _ | discarded _ | restarted => true
  | _ => false

/-- Whether an event leaves the queue and a pending stop alone. -/
def isCommon : Event → Bool
  | pushed _ | destroyed _ | refused _ | failed _ _ _ => false
  | event => !event.isTurn

end Event

/-- Whether a stop is pending after an event. -/
def heed (event : Event) (pending : Bool) : Bool :=
  match event with
  | .failed _ _ _ => true
  | .restarted | .halted => false
  | _ => pending

/-- The first that happened after a task was refused: the error is reported and a stop is asked
    for, and at most progress of the component is ended before. -/
def IsAnswer (t : Task) (later : List Event) : Prop :=
  ∃ i component before rest,
    later = rest ++ .stopAsked :: .failed i component FlowError.queueFull.message :: before
      ∧ ∀ event ∈ before, event = .progressChanged t.instanceId t.component

/-- **Every task that was refused is answered** by a fatal error. -/
def Answered (events : List Event) : Prop :=
  ∀ later t earlier, events = later ++ .refused t :: earlier → IsAnswer t later

theorem not_isAnswer_nil (t : Task) : ¬ IsAnswer t [] := by
  rintro ⟨i, component, before, rest, h, _⟩
  have hmem : Event.stopAsked ∈ ([] : List Event) := by
    rw [h]
    exact List.mem_append_right _ List.mem_cons_self
  cases hmem

theorem answered_of_not_mem {events : List Event} (h : ∀ t, .refused t ∉ events) :
    Answered events := by
  intro later t earlier he
  refine absurd ?_ (h t)
  rw [he]
  exact List.mem_append_right _ List.mem_cons_self

theorem IsAnswer.append {t : Task} {later : List Event} (h : IsAnswer t later)
    (events : List Event) : IsAnswer t (events ++ later) := by
  obtain ⟨i, component, before, rest, rfl, hb⟩ := h
  exact ⟨i, component, before, events ++ rest, (List.append_assoc _ _ _).symm, hb⟩

theorem Answered.append {events events' : List Event} (h : Answered events)
    (h' : Answered events') : Answered (events' ++ events) := by
  intro later t earlier he
  rcases List.append_eq_append_iff.mp he.symm with ⟨gap, hlater, hearlier⟩ | ⟨gap, hlater, hearlier⟩
  · cases gap with
    | nil => exact absurd (h [] t earlier hearlier.symm) (not_isAnswer_nil t)
    | cons event gap =>
      obtain ⟨rfl, _⟩ := List.cons.inj hearlier
      exact h' later t gap hlater
  · rw [hlater]
    exact (h gap t earlier hearlier).append events'

/-- A task that was refused, and then its answer. -/
theorem answered_refused {t : Task} {later : List Event} (hn : ∀ t', .refused t' ∉ later)
    (ha : IsAnswer t later) : Answered (later ++ [.refused t]) := by
  intro later' t' earlier he
  rcases List.append_eq_append_iff.mp he with ⟨gap, hlater, hend⟩ | ⟨gap, hlater, hend⟩
  · cases gap with
    | nil =>
      obtain ⟨heq, _⟩ := List.cons.inj hend
      cases heq
      rwa [hlater, List.append_nil]
    | cons event gap => simp at hend
  · cases gap with
    | nil =>
      obtain ⟨heq, _⟩ := List.cons.inj hend
      cases heq
      rw [List.append_nil] at hlater
      exact hlater ▸ ha
    | cons event gap =>
      obtain ⟨rfl, _⟩ := List.cons.inj hend
      exact absurd (hlater ▸ List.mem_append_right _ List.mem_cons_self) (hn t')

theorem foldr_heed_mono {events : List Event} {p p' : Bool} (hp : p = true → p' = true)
    (h : events.foldr heed p = true) : events.foldr heed p' = true := by
  induction events with
  | nil => exact hp h
  | cons event events ih =>
    rw [List.foldr_cons] at h ⊢
    unfold heed at h ⊢
    split at h
    · rfl
    · cases h
    · cases h
    · exact ih h

namespace Engine

/-! ## 2. News -/

/-- **The news tell what became of the queue** and of a pending stop; the latest are first. -/
structure Told (e e' : Engine) (news : List Event) : Prop where
  journal : e'.journal = news ++ e.journal
  capacity : e'.queue.capacity = e.queue.capacity
  turnovers : Turnovers e.queue.capacity e.queue.tasks news e'.queue.tasks
  answered : Answered news
  stands : news.foldr heed e.stopRequested = true → e'.stopRequested = true

namespace Told

/-- What the journal has after the news and did not have before is among the news. -/
theorem exists_of_any {e e' : Engine} {news : List Event} (h : Told e e' news)
    {p : Event → Bool} (hb : e.journal.any p = false) (ha : e'.journal.any p = true) :
    ∃ event ∈ news, p event = true := by
  rwa [h.journal, List.any_append, hb, Bool.or_false, List.any_eq_true] at ha

theorem trans {e e' e'' : Engine} {news news' : List Event} (h : Told e e' news)
    (h' : Told e' e'' news') : Told e e'' (news' ++ news) where
  journal := by rw [h'.journal, h.journal, List.append_assoc]
  capacity := h'.capacity.trans h.capacity
  turnovers := h.turnovers.append (h.capacity ▸ h'.turnovers)
  answered := h.answered.append h'.answered
  stands hs := by
    rw [List.foldr_append] at hs
    exact h'.stands (foldr_heed_mono h.stands hs)

/-- Nothing happened that counts. -/
theorem silent {e e' : Engine} (hj : e'.journal = e.journal) (hq : e'.queue = e.queue)
    (hs : e.stopRequested = true → e'.stopRequested = true) : Told e e' [] where
  journal := hj
  capacity := congrArg (·.capacity) hq
  turnovers := hq ▸ .nil
  answered := answered_of_not_mem fun _ h => nomatch h
  stands := hs

/-- One event that neither changes the queue nor asks for an answer. -/
theorem record (e : Engine) {event : Event} (ht : event.isTurnover = false)
    (hr : ∀ t, event ≠ .refused t) (hh : heed event e.stopRequested = e.stopRequested) :
    Told e (e.record event) [event] where
  journal := rfl
  capacity := rfl
  turnovers := .single (.rest _ ht)
  answered := answered_of_not_mem fun t h => hr t (List.mem_singleton.mp h).symm
  stands hs := hh ▸ hs

/-- One event with its change of the queue. -/
theorem turnover (e : Engine) {queue : TaskQueue} {event : Event}
    (hc : queue.capacity = e.queue.capacity)
    (ht : Turnover e.queue.capacity e.queue.tasks event queue.tasks)
    (hr : ∀ t, event ≠ .refused t) (hh : heed event e.stopRequested = e.stopRequested) :
    Told e ({ e with queue }.record event) [event] where
  journal := rfl
  capacity := hc
  turnovers := .single ht
  answered := answered_of_not_mem fun t h => hr t (List.mem_singleton.mp h).symm
  stands hs := hh ▸ hs

/-- A fatal error is reported, after events that do not count. -/
theorem fatal (e : Engine) (i : InstanceId) (component : Nat) (message : String) :
    Told e (e.failFatally i component message) [.stopAsked, .failed i component message] where
  journal := rfl
  capacity := rfl
  turnovers := .rest (by simp [Event.isTurnover])
  answered := answered_of_not_mem (by simp)
  stands _ := rfl

/-- A task that is refused is answered, and at most progress of its component is ended before. -/
theorem refused {e e' : Engine} {before : List Event} (t : Task) (i : InstanceId)
    (component : Nat) (h : Told (e.record (.refused t)) e' before)
    (hb : ∀ event ∈ before, event = .progressChanged t.instanceId t.component) :
    Told e (e'.failFatally i component FlowError.queueFull.message)
      (.stopAsked :: .failed i component FlowError.queueFull.message
        :: before ++ [.refused t]) where
  journal := by
    show _ :: _ :: e'.journal = _
    rw [h.journal]
    simp [Engine.record]
  capacity := h.capacity
  turnovers := by
    have hsingle : Turnovers e.queue.capacity e.queue.tasks [.refused t] e.queue.tasks :=
      .single (.rest _ rfl)
    have hfatal := (fatal e' i component FlowError.queueFull.message).turnovers
    rw [h.capacity] at hfatal
    exact (hsingle.append h.turnovers).append hfatal
  answered := by
    refine answered_refused (fun t' h => ?_) ⟨i, component, before, [], rfl, hb⟩
    simp only [List.mem_cons, reduceCtorEq, false_or] at h
    exact nomatch hb _ h
  stands _ := rfl

end Told

/-- There are news, and none of them is barred. -/
def ToldWithout (bar : Event → Bool) (e e' : Engine) : Prop :=
  ∃ news, Told e e' news ∧ ∀ event ∈ news, bar event = false

namespace ToldWithout

variable {bar : Event → Bool} {e e' e'' : Engine}

theorem trans (h : ToldWithout bar e e') (h' : ToldWithout bar e' e'') :
    ToldWithout bar e e'' := by
  obtain ⟨news, ht, hn⟩ := h
  obtain ⟨news', ht', hn'⟩ := h'
  refine ⟨news' ++ news, ht.trans ht', fun event he => ?_⟩
  rcases List.mem_append.mp he with he | he
  · exact hn' event he
  · exact hn event he

theorem mono {bar' : Event → Bool} (h : ToldWithout bar e e')
    (hb : ∀ event, bar' event = true → bar event = true) : ToldWithout bar' e e' := by
  obtain ⟨news, ht, hn⟩ := h
  refine ⟨news, ht, fun event he => Bool.eq_false_iff.mpr fun hbar => ?_⟩
  have hbarred := hb event hbar
  rw [hn event he] at hbarred
  cases hbarred

end ToldWithout

/-- The news tell what became of the queue, and no task had its turn, no step began or ended and no
    run. -/
abbrev Tells : Engine → Engine → Prop := ToldWithout Event.isTurn

namespace Tells

theorem silent {e e' : Engine} (hj : e'.journal = e.journal) (hq : e'.queue = e.queue)
    (hs : e.stopRequested = true → e'.stopRequested = true) : Tells e e' :=
  ⟨[], .silent hj hq hs, fun _ h => nomatch h⟩

theorem refl (e : Engine) : Tells e e := silent rfl rfl id

theorem record (e : Engine) {event : Event} (h : event.isCommon = true) :
    Tells e (e.record event) := by
  cases event with
  | pushed _ | destroyed _ | refused _ | failed _ _ _ | taken _ | stepped _ | ended _ _ _
  | discarded _ | restarted | halted => cases h
  | _ => exact ⟨[_], .record e rfl (fun _ h => nomatch h) rfl, by simp [Event.isTurn]⟩

/-- A change, and the event that tells of it. -/
theorem tail {e e' : Engine} (h : Tells e e') {event : Event} (hc : event.isCommon = true) :
    Tells e (e'.record event) := h.trans (record e' hc)

theorem push {e : Engine} {t : Task} {queue : TaskQueue} (hq : e.queue.push? t = some queue) :
    Tells e ({ e with queue }.record (.pushed t)) := by
  refine ⟨[.pushed t], .turnover e (TaskQueue.capacity_of_push hq) ?_ (fun _ h => nomatch h) rfl,
    by simp [Event.isTurn]⟩
  unfold TaskQueue.push? at hq
  split at hq
  · next hlt =>
    rw [← Option.some.inj hq]
    exact .push t hlt
  · cases hq

theorem fatal (e : Engine) (i : InstanceId) (component : Nat) (message : String) :
    Tells e (e.failFatally i component message) :=
  ⟨_, .fatal e i component message, by simp [Event.isTurn]⟩

theorem refused (e : Engine) (t : Task) (i : InstanceId) (component : Nat) :
    Tells e ((e.record (.refused t)).failFatally i component FlowError.queueFull.message) :=
  ⟨_, .refused t i component (.silent rfl rfl id) (fun _ h => nomatch h), by simp [Event.isTurn]⟩

/-! ## 3. Strokes are told -/

theorem writeSlot (e : Engine) (i : InstanceId) (slot : Nat) (v : Value) :
    Tells e (e.writeSlot i slot v) :=
  (silent rfl rfl id : Tells e (e.modifyInstance i (·.setValue slot v))).tail rfl

theorem clearSlot (e : Engine) (i : InstanceId) (slot : Nat) :
    Tells e (e.clearSlot i slot) := by
  unfold Engine.clearSlot
  split
  · split
    · exact refl e
    · exact writeSlot e i slot _
  · exact refl e

theorem arrival (e : Engine) (i : InstanceId) (slot target : Nat) (held v : Value) :
    Tells e (e.arrival i slot target held v) := by
  have hoffer : Tells e (e.offerSlot i slot held v) := by
    unfold offerSlot
    split
    · exact refl e
    · exact writeSlot e i slot v
    · exact (silent rfl rfl id : Tells e (e.breakDown .endlessArray)).trans (writeSlot _ i slot v)
  exact hoffer.tail rfl

end Tells

theorem Stroke.tells {closed : Prop} {own : Leeway} {e e' : Engine}
    (h : Stroke closed own e e') : Tells e e' := by
  cases h with
  | @note event hl ht hc =>
    refine Tells.record e ?_
    cases event with
    | pushed _ => cases ht
    | destroyed _ => cases hl
    | refused _ | failed _ _ _ | taken _ | stepped _ | ended _ _ _ | discarded _ | restarted
    | halted => cases hc
    | _ => rfl
  | route _ i component => exact Tells.record e rfl
  | aside he _ _ =>
    refine Tells.silent ?_ ?_ fun hs => ?_
    all_goals rw [he]
    exact hs
  | @global index v _ =>
    have hset : Tells e { e with globals := e.globals.setIfInBounds index v } :=
      .silent rfl rfl id
    exact hset.tail rfl
  | @element a index v _ =>
    have hset : Tells e { e with heap := e.heap.write a index v } := .silent rfl rfl id
    exact hset.tail rfl
  | request _ _ | progress _ _ | fail _ => exact .silent rfl rfl id
  | write _ => exact .writeSlot e _ _ _
  | fatal i component message => exact .fatal e i component message
  | push hq _ _ => exact .push hq
  | @refuse t _ i component => exact .refused e t i component
  | arrive _ _ _ => exact .arrival e _ _ _ _ _
  | @fire i c held v s queue _ _ _ _ _ hq =>
    have harrival := Tells.arrival e i c.targetInput.toNat c.targetComponent.toNat held v
    have hpush := harrival.trans (Tells.push hq)
    unfold firing
    dsimp only
    split
    · exact hpush.trans (Tells.clearSlot _ _ _)
    · exact hpush

theorem Strokes.tells {closed : Prop} {own : Leeway} {e e' : Engine}
    (h : Strokes closed own e e') : Tells e e' := by
  induction h with
  | refl => exact .refl e
  | tail _ h ih => exact ih.trans h.tells

/-! ## 4. Paces are told -/

namespace Tells

theorem markAsync (e : Engine) (i : InstanceId) (component : Nat) (waits : Bool) :
    Tells e (e.markAsync i component waits) := by
  unfold Engine.markAsync
  split
  · exact refl e
  next s _ =>
  split
  · exact (silent rfl rfl id : Tells e (e.modifyInstance i (·.setAsync component waits))).tail rfl
  · exact refl e

theorem clearAsync (e : Engine) (child : Option InstanceId) (i : InstanceId) (component : Nat) :
    Tells e (e.clearAsync child i component) :=
  (record e rfl).trans (markAsync _ i component false)

theorem startAsync (e : Engine) (child : Option InstanceId) (i : InstanceId) (component : Nat) :
    Tells e (e.startAsync child i component) :=
  (record e rfl).trans (markAsync _ i component true)

/-- The end of an instance drops its tasks. -/
theorem echoed (e : Engine) (i : InstanceId) : Tells e (e.echoed i) :=
  ⟨[.destroyed i], .turnover e rfl (.drop _ i) (fun _ h => nomatch h) rfl, by simp [Event.isTurn]⟩

theorem buried (e : Engine) (i : InstanceId) (forest : Forest) :
    Tells e ((e.stripped i).buried i forest) := by
  have hstrokes : Strokes False nobody e (e.stripped i) := strokes_stripped .refl fun _ => rfl
  have hforest : Tells ((e.stripped i).echoed i) ((e.stripped i).buried i forest) :=
    silent rfl rfl id
  exact hstrokes.tells.trans ((echoed _ i).trans hforest)

theorem destroys {job : Job} {e e' : Engine} (h : Destroys job e e') : Tells e e' := by
  induction h with
  | gone _ | nil | unheard _ => exact refl _
  | root _ _ _ _ ihk => exact ihk.trans (buried _ _ _)
  | called _ _ _ _ _ ihk ihw => exact (ihk.trans (buried _ _ _)).trans ihw
  | again _ _ _ ihk => exact ihk.trans (echoed _ _)
  | cons _ _ ihk ihks => exact ihk.trans ihks
  | heard _ _ => exact clearAsync _ _ _ _
  | falls _ _ _ ih => exact (clearAsync _ _ _ _).trans ih

theorem arisen (e : Engine) (flow : Nat) (f : Flow) (parent : Option (InstanceId × Nat))
    (isAction : Bool) : Tells e (e.arisen flow f parent isAction) := by
  have hset : Tells e { e with
      heap := (freshInstance flow f parent isAction e.heap).2
      forest := (e.forest.insert (freshInstance flow f parent isAction e.heap).1).2 } :=
    silent rfl rfl id
  have hbegun : Tells e (e.begun flow f parent isAction) := hset.tail rfl
  have hpings : Strokes False nobody _ (e.arisen flow f parent isAction) :=
    strokes_arisen flow f parent isAction
  exact hbegun.trans hpings.tells

end Tells

theorem Pace.tells {closed : Prop} {own : Leeway} {e e' : Engine}
    (h : Pace closed own e e') : Tells e e' := by
  cases h with
  | stroke h => exact h.tells
  | await i component => exact .startAsync e none i component
  | release child i component => exact .clearAsync e child i component
  | begin _ _ => exact .arisen e _ _ _ _
  | call _ _ => exact (Tells.arisen e _ _ _ _).trans (Tells.startAsync _ _ _ _)
  | destroy h => exact .destroys h
  | settle _ => exact .record e rfl
  | stop => exact .silent rfl rfl fun _ => rfl

/-- **Paces are told**, and no task has its turn in them. -/
theorem Paces.tells {closed : Prop} {own : Leeway} {e e' : Engine}
    (h : Paces closed own e e') : Tells e e' := by
  induction h with
  | refl => exact .refl e
  | tail _ h ih => exact ih.trans h.tells

/-! ## 5. Tasks and leaps are told -/

/-- No task had its turn, and no step began. -/
abbrev Rests : Engine → Engine → Prop := ToldWithout Event.isStart

theorem Tells.rests {e e' : Engine} (h : Tells e e') : Rests e e' :=
  h.mono fun event he => by
    cases event with
    | taken _ | stepped _ => rfl
    | _ => cases he

theorem told_takeTask {e : Engine} {t : Task} {ts : List Task} (hq : e.queue.tasks = t :: ts) :
    Told e (e.takeTask t) [.taken t] := by
  refine .turnover e rfl ?_ (fun _ h => nomatch h) rfl
  show Turnover e.queue.capacity e.queue.tasks (.taken t) e.queue.tasks.tail
  rw [hq]
  exact .take t ts

theorem told_beginStep (e : Engine) (t : Task) : Told e (e.beginStep t) [.stepped t] := by
  have hset : Told e { e with executing := some (t.instanceId, t.component) } [] :=
    .silent rfl rfl id
  have hrecord : Told { e with executing := some (t.instanceId, t.component) } (e.beginStep t)
      [.stepped t] := .record _ rfl (fun _ h => nomatch h) rfl
  exact hset.trans hrecord

theorem rests_endStep (e : Engine) (i : InstanceId) (component : Nat) (midway : Bool) :
    Rests e (e.endStep i component midway) := by
  have hset : Told e { e with executing := none } [] := .silent rfl rfl id
  have hrecord : Told { e with executing := none } (e.endStep i component midway)
      [.ended i component midway] := .record _ rfl (fun _ h => nomatch h) rfl
  exact ⟨_, hset.trans hrecord, fun _ h => List.mem_singleton.mp h ▸ rfl⟩

/-- A component that cannot be queued again loses its progress, and the task is answered. -/
theorem tells_continueLater (e : Engine) (i : InstanceId) (component : Nat) :
    Tells e (e.continueLater i component) := by
  rcases continueLater_cases e i component with ⟨queue, hq, he⟩ | ⟨_, he⟩
  · rw [he]
    exact .push hq
  · rw [he]
    have hrelease : ∃ before, Told (e.record (.refused ⟨i, component, true⟩))
        ((e.record (.refused ⟨i, component, true⟩)).releaseProgress i component) before
        ∧ ∀ event ∈ before, event = .progressChanged i component := by
      unfold releaseProgress
      split
      · have hset : Told (e.record (.refused ⟨i, component, true⟩))
            ((e.record (.refused ⟨i, component, true⟩)).setProgress i component none) [] :=
          .silent rfl rfl id
        exact ⟨_, hset.trans (.record _ rfl (fun _ h => nomatch h) rfl),
          fun event h => List.mem_singleton.mp h⟩
      · exact ⟨[], .silent rfl rfl id, fun _ h => nomatch h⟩
    obtain ⟨before, ht, hb⟩ := hrelease
    refine ⟨_, .refused ⟨i, component, true⟩ i component ht hb, fun event he => ?_⟩
    simp only [List.mem_append, List.mem_cons, List.not_mem_nil, or_false] at he
    rcases he with (rfl | rfl | he) | rfl
    · rfl
    · rfl
    · rw [hb event he]
      rfl
    · rfl

theorem rests_afterStep (i : InstanceId) (component : Nat)
    (outcome : EStateM.Result FlowError Engine Step) :
    Rests (stateAfter outcome) (afterStep i component outcome) := by
  match outcome with
  | .ok .completed e => exact rests_endStep e i component false
  | .ok .suspended e =>
    exact (rests_endStep e i component true).trans (tells_continueLater _ i component).rests
  | .error _ e => exact rests_endStep e i component false

/-- **No other task has its turn during a task of the flows**, and no other step begins. -/
theorem told_runTask {closed : Prop} {e : Engine} (hi : Inv closed e)
    (hh : e.definition.Hostless) (handler : Handler) (t : Task) :
    ∃ news, Told e (e.runTask handler t) news ∧ takes news = [] ∧ (steps news).Sublist [t] := by
  have hrest {e₁ e₂ : Engine} (hr : Rests e₁ e₂) :
      (∃ news, Told e e₁ news ∧ takes news = [] ∧ (steps news).Sublist [t]) →
        ∃ news, Told e e₂ news ∧ takes news = [] ∧ (steps news).Sublist [t] := by
    rintro ⟨news, ht, htakes, hsteps⟩
    obtain ⟨news', ht', hn⟩ := hr
    obtain ⟨htakes', hsteps'⟩ := starts_eq_nil hn
    unfold takes at htakes htakes'
    unfold steps at hsteps hsteps'
    refine ⟨news' ++ news, ht.trans ht', ?_, ?_⟩
    · rw [takes, picks_append, htakes', htakes]
      rfl
    · rwa [steps, picks_append, hsteps', List.append_nil]
  refine runTask_preserves hi handler (fun c hc => only_componentOf? hh hc)
    (fun _ h => hrest h.tells.rests) (fun _ => ?_) (fun c _ => hrest (rests_afterStep _ _ _)) ?_
  · exact ⟨_, told_beginStep e t, rfl, List.Sublist.refl [t]⟩
  · exact ⟨[], .silent rfl rfl id, rfl, List.nil_sublist _⟩

/-- **The turn of the first task** is the only one that comes with it. -/
theorem told_turn {closed : Prop} {e : Engine} (hi : Inv closed e) (hh : e.definition.Hostless)
    (handler : Handler) {t : Task} {ts : List Task} (hq : e.queue.tasks = t :: ts) :
    ∃ news, Told e ((e.takeTask t).runTask handler t) news
      ∧ takes news = [t] ∧ (steps news).Sublist [t] := by
  have hi' := (touches_takeTask t).inv hi
  obtain ⟨news, ht, htakes, hsteps⟩ := told_runTask hi' hh handler t
  refine ⟨news ++ [.taken t], (told_takeTask hq).trans ht, ?_, ?_⟩
  · unfold takes at htakes ⊢
    rw [picks_append, htakes]
    rfl
  · unfold steps at hsteps ⊢
    rw [picks_append]
    exact hsteps

theorem told_halt (e : Engine) : Told e e.halt [.halted] where
  journal := rfl
  capacity := rfl
  turnovers := .single (.clear _)
  answered := answered_of_not_mem fun _ h => nomatch List.mem_singleton.mp h
  stands h := nomatch h

/-- At the end of a run no task has its turn. -/
theorem rests_shutdown {closed : Prop} {e : Engine} (hi : Inv closed e) : Rests e e.shutdown := by
  have hfree : Paces closed nobody e (e.forest.roots.foldl (fun e root => e.free root) e) :=
    paces_freeAll hi .refl e.forest.roots
  have hhalt : Rests (e.forest.roots.foldl (fun e root => e.free root) e) e.shutdown :=
    ⟨[.halted], told_halt _, fun _ h => List.mem_singleton.mp h ▸ rfl⟩
  exact hfree.tells.rests.trans hhalt

theorem told_setHostState (e : Engine) (i : InstanceId) (component : Nat)
    (state : Option Int32) : Tells e (e.setHostState i component state) := by
  have hset (p : Option Progress) : Tells e (e.setProgress i component p) := .silent rfl rfl id
  unfold setHostState allocateProgress releaseProgress
  split
  · split
    · exact (hset _).tail rfl
    · exact .refl e
  · split
    · exact (hset none).tail rfl
    · exact .refl e

/-- **Every leap is told.** -/
theorem Leap.told {closed hostless stateless : Prop} {e e' : Engine}
    (h : Leap closed hostless stateless e e') (hi : Inv closed e) : ∃ news, Told e e' news := by
  have hsome {bar : Event → Bool} {e e' : Engine} (h : ToldWithout bar e e') :
      ∃ news, Told e e' news := ⟨_, h.choose_spec.1⟩
  cases h with
  | pace _ h => exact hsome h.tells
  | raise i component message =>
    have hraise : Strokes closed anybody e (e.raiseError i component message) :=
      strokes_raised hi i component _
    exact hsome hraise.tells
  | @task handler t ts hh _ hq =>
    obtain ⟨news, ht, _⟩ := told_turn hi hh handler hq
    exact ⟨news, ht⟩
  | discard hq _ =>
    exact ⟨_, (told_takeTask hq).trans (.record _ rfl (fun _ h => nomatch h) rfl)⟩
  | take _ hq => exact ⟨_, told_takeTask hq⟩
  | beginStep _ t => exact ⟨_, told_beginStep e t⟩
  | endStep _ i component midway => exact hsome (rests_endStep e i component midway)
  | resume _ i component => exact hsome (tells_continueLater e i component)
  | restart =>
    refine ⟨[.restarted], rfl, rfl, .single (.rest _ rfl), ?_, fun h => (nomatch h)⟩
    exact answered_of_not_mem fun t h => nomatch List.mem_singleton.mp h
  | halt _ => exact ⟨_, told_halt e⟩
  | setting he _ =>
    refine ⟨[], .silent ?_ ?_ fun hs => ?_⟩
    all_goals rw [he]
    exact hs
  | keep _ i component state => exact hsome (told_setHostState e i component state)

/-- **All that happens is told.** -/
theorem Leaps.told {closed hostless stateless : Prop} {e e' : Engine}
    (h : Leaps closed hostless stateless e e') (hi : Inv closed e) : ∃ news, Told e e' news := by
  induction h with
  | refl => exact ⟨[], .silent rfl rfl id⟩
  | @tail e₁ e₂ hs h ih =>
    obtain ⟨news, ht⟩ := ih
    obtain ⟨news', ht'⟩ := h.told (Leaps.inv hs hi)
    exact ⟨news' ++ news, ht.trans ht'⟩

/-! ## 6. Deeds are told -/

/-- **Every deed is told**: no task has its turn, no step begins or ends, and no run begins. -/
theorem Deed.told {closed stateless : Prop} {e e' : Engine} (h : Deed closed stateless e e')
    (hi : Inv closed e) : ToldWithout Event.isAct e e' := by
  have htells {e e' : Engine} (h : Tells e e') : ToldWithout Event.isAct e e' :=
    h.mono fun event he => by
      cases event with
      | taken _ | stepped _ | ended _ _ _ | discarded _ | restarted => rfl
      | _ => cases he
  cases h with
  | pace h => exact htells h.tells
  | raise i component message =>
    have hraise : Strokes closed anybody e (e.raiseError i component message) :=
      strokes_raised hi i component _
    exact htells hraise.tells
  | halt _ => exact ⟨_, told_halt e, fun _ h => List.mem_singleton.mp h ▸ rfl⟩
  | setting he _ =>
    refine ⟨[], .silent ?_ ?_ fun hs => ?_, fun _ h => nomatch h⟩
    all_goals rw [he]
    exact hs
  | keep _ i component state => exact htells (told_setHostState e i component state)

theorem Deeds.told {closed stateless : Prop} {e e' : Engine} (h : Deeds closed stateless e e')
    (hi : Inv closed e) : ToldWithout Event.isAct e e' := by
  induction h with
  | refl => exact ⟨[], .silent rfl rfl id, fun _ h => nomatch h⟩
  | tail hs h ih => exact ih.trans (h.told (Deeds.inv hs hi))

end Engine

end InstrumentFlow
