import InstrumentFlow.Proofs.Dialogue.Turn

/-!
# Suspensions are not seen

An SCPI component sends a request, is suspended, and is run again and again until the answer is
there. What can be seen of its work is the same for all these ways of waiting, and it is what its
payload means from left to right.

* `Dialogue` -- an SCPI component at its payload, turn after turn;
* `Dialogue.InPeace` -- nobody else changes what is stored, there is room, and answers come;
* `Dialogue.meaning`, `Dialogue.upshot` -- the interpretation of the payload, and what came of the
  work of the component;
* `Level`, `Pends` -- how far the interpretation is between two turns;
* `Level.stops` -- where the parts of a turn leave the component;
* `Pends.poll`, `Pends.hear` -- a turn without an answer, and a turn with one;
* `suspension_transparent` -- **what comes of the work is what the payload means**.
-/

namespace InstrumentFlow

open Engine Scpi

/-- The component waits for an answer that is not there yet. -/
def Engine.Awaits (e : Engine) (i : InstanceId) (c : Nat) : Prop :=
  ∃ t, e.pendingOf i c = some t ∧ e.ledger.outcome? t = some .waiting

/-- What is shown after an earlier program. -/
def Engine.shownSince (e₀ e : Engine) : List Event := e.shown.drop e₀.shown.length

theorem Engine.shownSince_of_append {e₀ e : Engine} {own : List Event}
    (h : e.shown = e₀.shown ++ own) : e₀.shownSince e = own := by
  unfold shownSince
  rw [h, List.drop_left]

/-! ## 1. Dialogues -/

/-- **An SCPI component at its payload**, turn after turn: the program each time a task of it is
    about to run, and what becomes of its requests. -/
structure Dialogue where
  handler : Handler
  instanceId : InstanceId
  component : Nat
  record : Component
  turn : Nat → Engine
  resumes : Nat → Bool
  reaction : Nat → Reaction

/-- What comes of the work of a component: how it ends, what is stored then, and what was shown. -/
structure Upshot where
  ending : Except FlowError Unit
  storage : Storage
  shown : List Event

/-- How an activity ends. -/
def endingOf {α : Type} : EStateM.Result FlowError Engine α → Except FlowError Unit
  | .ok _ _ => .ok ⟨⟩
  | .error err _ => .error err

theorem Pairs.endingOf {α : Type} {R : Engine → Engine → Prop}
    {x y : EStateM.Result FlowError Engine α} (h : Pairs R x y) :
    R (stateAfter x) (stateAfter y) ∧ InstrumentFlow.endingOf x = InstrumentFlow.endingOf y := by
  cases h with
  | ok hr => exact ⟨hr, rfl⟩
  | error hr => exact ⟨hr, rfl⟩

/-- An activity whose result is replaced ends as it does otherwise. -/
theorem ending_bind_pure {α β : Type} (x : Act α) (b : β) (e : Engine) :
    stateAfter ((x >>= fun _ => pure b) e) = stateAfter (x e)
    ∧ endingOf ((x >>= fun _ => pure b) e) = endingOf (x e)
    ∧ ∀ r e', (x >>= fun _ => pure b) e = .ok r e' → r = b := by
  cases hx : x e with
  | ok r e' =>
    rw [bind_of_ok hx]
    exact ⟨rfl, rfl, fun _ _ h => (EStateM.Result.ok.inj h).1.symm⟩
  | error err e' =>
    rw [bind_of_error hx]
    exact ⟨rfl, rfl, fun _ _ h => nomatch h⟩

namespace Dialogue

variable (d : Dialogue)

def task (k : Nat) : Task := ⟨d.instanceId, d.component, d.resumes k⟩

/-- The program in which the step of a turn begins. -/
def begun (k : Nat) : Engine := (d.turn k).beginStep (d.task k)

/-- The step of a turn. -/
def step (k : Nat) : EStateM.Result FlowError Engine Step :=
  execute d.handler d.instanceId d.component d.record (d.begun k)

/-- The program after a turn. -/
def after (k : Nat) : Engine := (d.turn k).runTask d.handler (d.task k)

/-- All turns before this one left the component suspended. -/
def Lasts (k : Nat) : Prop := ∀ j < k, ∃ e, d.step j = .ok .suspended e

/-- The work of the component ends with this turn. -/
def EndsAt (k : Nat) : Prop := d.Lasts k ∧ ∀ e, d.step k ≠ .ok .suspended e

/-- What the turns before this one have shown. -/
def transcript (d : Dialogue) : Nat → List Event
  | 0 => []
  | k + 1 => d.transcript k ++ (d.turn k).shownSince (d.after k)

/-- How many requests the turns before this one have sent. -/
def requests (k : Nat) : Nat := (d.transcript k).countP Event.isRequest

/-- What came of the work that ended with a turn. -/
def upshot (k : Nat) : Upshot :=
  { ending := endingOf (d.step k)
    storage := (stateAfter (d.step k)).storage
    shown := d.transcript k ++ (d.turn k).shownSince (stateAfter (d.step k)) }

/-- The program in which the interpretation of the payload begins. -/
def opening : Engine := { d.turn 0 with executing := some (d.instanceId, d.component) }

/-- The flow of the component. -/
def flow : Nat := (d.turn 0).flowIndex d.instanceId

/-- The interpretation of the payload in that program. -/
def told : EStateM.Result FlowError Engine Unit :=
  interpret d.instanceId d.component d.flow d.record.payload d.reaction 0 "" 0 d.opening

/-- **What the payload means** from left to right, where every answer is at hand. -/
def meaning : Upshot :=
  { ending := endingOf d.told
    storage := (stateAfter d.told).storage
    shown := d.opening.shownSince (stateAfter d.told) }

/-- From the end of a turn to the beginning of the next nothing happens to what the component works
    with. Its queue may have been filled and emptied, and the instrument may have answered. -/
structure Undisturbed (k : Nat) : Prop where
  storage : (d.turn (k + 1)).storage = (d.after k).storage
  progress : (d.turn (k + 1)).progress? d.instanceId d.component
    = (d.after k).progress? d.instanceId d.component
  stopRequested : (d.turn (k + 1)).stopRequested = (d.after k).stopRequested
  stopped : (d.turn (k + 1)).stopped = (d.after k).stopped
  capacity : (d.turn (k + 1)).queue.capacity = (d.after k).queue.capacity

/-- **A dialogue in peace.** A component begins with its payload. Between its turns nobody disturbs
    it, in its turns no queue is full. What becomes of its requests is as foreseen, each time after
    any number of turns in which it is not known yet. -/
structure InPeace : Prop where
  kind : d.record.kind = .scpi
  place : (d.turn 0).hasComponent d.instanceId d.component = true
  record : (d.turn 0).componentOf? d.instanceId d.component = some d.record
  fresh : (d.turn 0).progress? d.instanceId d.component = none
  unfailed : ∀ k s, d.Lasts k → (d.turn k).instance? d.instanceId = some s → s.failed = false
  undisturbed : ∀ k, d.Lasts (k + 1) → d.Undisturbed k
  serves : ∀ k, d.Lasts k → ¬ (d.turn k).Awaits d.instanceId d.component →
    Meets (d.reaction (d.requests k)) (d.turn k).dispatcher
  foreseen : ∀ k t, d.Lasts k → (d.turn k).pendingOf d.instanceId d.component = some t →
    (d.turn k).ledger.outcome? t = some .waiting
      ∨ (d.turn k).ledger.outcome? t = some (d.reaction (d.requests k - 1)).outcome
  settled : ∀ k, d.Lasts k →
    ∃ m, k ≤ m ∧ (d.Lasts m → ¬ (d.turn m).Awaits d.instanceId d.component)
  unrefused : ∀ k, d.Lasts k → ¬ Refuses (d.turn k) (stateAfter (d.step k))
  room : ∀ k e, d.Lasts k → d.step k = .ok .suspended e → e.queue.size < e.queue.capacity

/-- The same component begins with the same payload in the same program, and the same becomes of its
    requests. -/
structure Resembles (d' : Dialogue) : Prop where
  instanceId : d'.instanceId = d.instanceId
  component : d'.component = d.component
  record : d'.record = d.record
  turn : d'.turn 0 = d.turn 0
  reaction : d'.reaction = d.reaction

variable {d} {k : Nat}

/-- Whether a turn leaves the component suspended. -/
def suspends (d : Dialogue) (k : Nat) : Bool :=
  match d.step k with
  | .ok .suspended _ => true
  | _ => false

theorem suspends_iff : d.suspends k = true ↔ ∃ e, d.step k = .ok .suspended e := by
  unfold suspends
  split
  · next e he => exact ⟨fun _ => ⟨e, he⟩, fun _ => rfl⟩
  · next hne =>
    refine ⟨fun h => (nomatch h), ?_⟩
    rintro ⟨e, he⟩
    exact absurd he (hne e)

instance : Decidable (d.Lasts k) :=
  decidable_of_iff (∀ j < k, d.suspends j = true)
    ⟨fun h j hj => suspends_iff.mp (h j hj), fun h j hj => suspends_iff.mpr (h j hj)⟩

instance : Decidable (d.EndsAt k) :=
  decidable_of_iff (d.Lasts k ∧ ¬ d.suspends k = true)
    (and_congr_right fun _ => suspends_iff.not.trans not_exists)

theorem Resembles.meaning {d' : Dialogue} (h : d.Resembles d') : d'.meaning = d.meaning := by
  have hopening : d'.opening = d.opening := by
    unfold opening
    rw [h.turn, h.instanceId, h.component]
  have htold : d'.told = d.told := by
    unfold told flow
    rw [hopening, h.instanceId, h.component, h.record, h.turn, h.reaction]
  unfold Dialogue.meaning
  rw [htold, hopening]

theorem Lasts.next (h : d.Lasts k) {e : Engine} (hs : d.step k = .ok .suspended e) :
    d.Lasts (k + 1) := by
  intro j hj
  rcases Nat.lt_succ_iff_lt_or_eq.mp hj with hlt | rfl
  · exact h j hlt
  · exact ⟨e, hs⟩

/-! ## 2. The interpretation between turns -/

/-- **The interpretation is as far as the dialogue** when a turn begins, after `n` requests. -/
structure Level (d : Dialogue) (k n : Nat) (a : Engine) : Prop where
  lasts : d.Lasts k
  storage : a.storage = (d.turn k).storage
  executing : a.executing = some (d.instanceId, d.component)
  stopRequested : a.stopRequested = (d.turn k).stopRequested
  stopped : a.stopped = (d.turn k).stopped
  capacity : a.queue.capacity = (d.turn k).queue.capacity
  size : a.queue.size ≤ (d.turn k).queue.size
  fixture : (d.turn k).fixture d.instanceId = (d.turn 0).fixture d.instanceId
  shown : a.shown = d.opening.shown ++ d.transcript k
  requests : d.requests k = n

/-- The work of the component ends with a turn, and it came to what the payload means. -/
def Achieves (d : Dialogue) (k : Nat) : Prop := d.EndsAt k ∧ d.upshot k = d.meaning

/-- The parts of a turn. -/
def parts (d : Dialogue) (k : Nat) : EStateM.Result FlowError Engine (Option ScpiProgress) :=
  (d.begun k).scpiParts d.instanceId d.component d.record.payload

section

variable {n m : Nat} {a a' e : Engine}

theorem level_opening (d : Dialogue) : d.Level 0 0 d.opening where
  lasts _ hj := (Nat.not_lt_zero _ hj).elim
  storage := rfl
  executing := rfl
  stopRequested := rfl
  stopped := rfl
  capacity := rfl
  size := Nat.le_refl _
  fixture := rfl
  shown := (List.append_nil _).symm
  requests := rfl

/-- The program in which a step begins, without the progress of its component. -/
theorem Level.akin (h : d.Level k n a) : Akin d.instanceId 0 a (d.begun k) a
    ((d.begun k).setProgress d.instanceId d.component none) := by
  have hsame : Akin d.instanceId 0 a (d.begun k) a (d.begun k) :=
    ⟨h.storage, h.executing, rfl, h.stopRequested, h.stopped, h.capacity, h.size, rfl, fun _ => rfl,
      List.suffix_rfl, [], (List.append_nil _).symm, (List.append_nil _).symm, rfl⟩
  exact hsame.unseen (storage_setProgress _ _ _ none) rfl [] rfl rfl

theorem Level.parts (h : d.Level k n a) :
    d.parts k = runParts d.instanceId d.component d.flow d.record.payload
      (d.record.payload.length + 1)
      (scpiProgress ((d.turn k).progress? d.instanceId d.component))
      ((d.begun k).setProgress d.instanceId d.component none) := by
  have hflow : (d.begun k).flowIndex d.instanceId = d.flow := flowIndex_of_fixture h.fixture
  unfold Dialogue.parts scpiParts
  rw [hflow]
  rfl

theorem step_eq (hk : d.record.kind = .scpi) :
    d.step k = stepScpi d.instanceId d.component d.record (d.begun k) := by
  unfold step execute
  rw [hk]

/-- What a program shows in a step. -/
theorem Level.shownSince (h : d.Level k n a) (hr : Akin d.instanceId m a (d.begun k) a' e) :
    d.opening.shownSince a' = d.transcript k ++ (d.turn k).shownSince e := by
  obtain ⟨own, ha, he, _⟩ := hr.trace
  have hshown : e.shown = (d.turn k).shown ++ own := he
  rw [shownSince_of_append hshown, shownSince_of_append]
  rw [ha, h.shown, List.append_assoc]

/-- **Where a step ends as the interpretation does**, the work came to what the payload means. -/
theorem Level.achieves (h : d.Level k n a)
    (hr : Akin d.instanceId m a (d.begun k) (stateAfter d.told) (stateAfter (d.step k)))
    (he : endingOf (d.step k) = endingOf d.told) (hs : ∀ e, d.step k ≠ .ok .suspended e) :
    d.Achieves k := by
  refine ⟨⟨h.lasts, hs⟩, ?_⟩
  unfold upshot meaning
  rw [he, hr.storage, h.shownSince hr]

/-- **From a suspended step to the next turn.** The interpretation has stood by meanwhile. -/
theorem Level.next (hd : d.InPeace) (h : d.Level k n a)
    (hr : Akin d.instanceId m a (d.begun k) a' e) (hs : d.step k = .ok .suspended e)
    {s : ScpiProgress} (hp : e.progress? d.instanceId d.component = some (.scpi s)) :
    d.Level (k + 1) (n + m) (a'.standBy d.instanceId d.component)
    ∧ (d.turn (k + 1)).progress? d.instanceId d.component = some (.scpi s) := by
  have hlasts := h.lasts.next hs
  have hquiet := hd.undisturbed k hlasts
  have hrecord : (d.turn k).componentOf? d.instanceId d.component = some d.record :=
    (componentOf?_of_fixture h.fixture _).trans hd.record
  obtain ⟨s₀, hs₀, _⟩ := Option.bind_eq_some_iff.mp hrecord
  have hafter : d.after k = e.paused d.instanceId d.component := by
    have hunfailed := hd.unfailed k s₀ h.lasts hs₀
    unfold Dialogue.after paused
    rw [runTask_of_live (t := d.task k) d.handler hs₀ hunfailed hrecord, ← hs]
    rfl
  obtain ⟨hakin, hprogress⟩ := akin_paused (a := a') hr hp (hd.room k e h.lasts hs)
  rw [← hafter] at hakin hprogress
  obtain ⟨own, ha, he, hown⟩ := hakin.trace
  have hshown : (d.after k).shown = (d.turn k).shown ++ own := he
  have htranscript : d.transcript (k + 1) = d.transcript k ++ own :=
    congrArg (d.transcript k ++ ·) (shownSince_of_append hshown)
  have hreset := (hr.resetSequenceInputs d.instanceId d.component).running.trans h.executing
  refine ⟨⟨hlasts, hakin.storage.trans hquiet.storage.symm, hreset,
    hakin.stopRequested.trans hquiet.stopRequested.symm, hakin.stopped.trans hquiet.stopped.symm,
    ?_, Nat.zero_le _, ?_, ?_, ?_⟩, hquiet.progress.trans hprogress⟩
  · show (a'.resetSequenceInputs d.instanceId d.component).queue.capacity = _
    rw [hquiet.capacity]
    exact hakin.capacity
  · rw [fixture_of_storage hquiet.storage]
    exact hakin.fixture.trans h.fixture
  · rw [htranscript, ← List.append_assoc, ← h.shown]
    exact ha
  · unfold Dialogue.requests
    rw [htranscript, List.countP_append, hown]
    exact congrArg (· + m) h.requests

theorem hasComponent_begun (hd : d.InPeace) (h : d.Level k n a)
    (hr : Akin d.instanceId m a (d.begun k) a' e) :
    e.hasComponent d.instanceId d.component = true := by
  rw [hasComponent_of_fixture (hr.fixture.trans h.fixture), hd.place]

/-- **Where the parts of a turn leave the component waiting**, its next turn comes. -/
theorem Level.waits (hd : d.InPeace) (h : d.Level k n a)
    (hr : Akin d.instanceId m a (d.begun k) a' e) {s : ScpiProgress}
    (hp : d.parts k = .ok (some s) e) :
    d.Level (k + 1) (n + m) (a'.standBy d.instanceId d.component)
    ∧ (d.turn (k + 1)).progress? d.instanceId d.component = some (.scpi s) := by
  have hstep := step_eq (k := k) hd.kind
  unfold Dialogue.parts at hp
  rw [stepScpi_eq, hp] at hstep
  exact h.next hd (hr.settleProgress _ _ _ _) hstep
    (progress?_settleProgress (hasComponent_begun hd h hr) _ _)

/-- **A component that waits**, and how far the interpretation is by then: after `n` requests and
    one more, at the verb that sent it. -/
def Pends (d : Dialogue) (k n cursor : Nat) : Prop :=
  ∃ text t kind assigns a, d.Level k (n + 1) a
    ∧ a.standBy d.instanceId d.component = a
    ∧ (d.turn k).progress? d.instanceId d.component = some (.scpi ⟨cursor, text, some t⟩)
    ∧ AtVerb d.record.payload cursor kind assigns
    ∧ d.told = interpretAnswer d.instanceId d.component d.flow d.record.payload d.reaction kind
        assigns cursor text n a

theorem Pends.lasts {cursor : Nat} (h : d.Pends k n cursor) : d.Lasts k := by
  obtain ⟨_, _, _, _, _, hlevel, _⟩ := h
  exact hlevel.lasts

theorem Pends.within {cursor : Nat} (h : d.Pends k n cursor) :
    cursor < d.record.payload.length := by
  obtain ⟨_, _, _, _, _, _, _, _, ⟨_, hread, _⟩, _⟩ := h
  exact lt_of_readHead hread

/-- The beginning of a step refuses nothing. -/
theorem refuses_begun (h : Refuses (d.begun k) e) : Refuses (d.turn k) e := by
  obtain ⟨news, t, hj, ht⟩ := h
  refine ⟨news ++ [.stepped (d.task k)], t, ?_, List.mem_append_left _ ht⟩
  rw [hj, List.append_assoc]
  rfl

/-- **The last pulse** of the component is the last of the interpretation. -/
theorem Level.completes (hd : d.InPeace) (h : d.Level k n a)
    (hr : Akin d.instanceId m a (d.begun k) a' e)
    (htold : d.told = pulse d.instanceId d.component a')
    (hstep : d.step k = (pulse d.instanceId d.component >>= fun _ => pure .completed) e) :
    d.Achieves k := by
  obtain ⟨hafter, hending, hresult⟩ := ending_bind_pure (pulse d.instanceId d.component)
    Step.completed e
  rw [← hstep] at hafter hending hresult
  rcases follows_propagate hr d.instanceId d.component sequenceOutput .null with hfull | hpairs
  · refine absurd (refuses_begun hfull) ?_
    have hcalm := hd.unrefused k h.lasts
    rwa [hafter] at hcalm
  · obtain ⟨hboth, hsame⟩ := hpairs.endingOf
    refine h.achieves (m := m) ?_ ?_ fun e' he' => nomatch hresult _ _ he'
    · rw [htold, hafter]
      exact hboth
    · rw [htold, hending]
      exact hsame.symm

/-- **After the parts of a turn** the work ends as the interpretation does, or the component waits
    where the interpretation has the answer before it. -/
theorem Level.stops (hd : d.InPeace) (h : d.Level k n a) {offset : Nat}
    (hs : Stops d.instanceId d.component d.flow d.record.payload d.reaction offset n a (d.begun k)
      d.told (d.parts k)) :
    d.Achieves k ∨ ∃ cursor, offset ≤ cursor ∧ d.Pends (k + 1) n cursor := by
  have hstep := step_eq (k := k) hd.kind
  rw [stepScpi_eq] at hstep
  cases hp : d.parts k with
  | error err e =>
    left
    rw [hp] at hs
    unfold Dialogue.parts at hp
    rw [hp] at hstep
    obtain ⟨a', htold, hakin⟩ := hs
    refine h.achieves (m := 0) ?_ ?_ fun e' he' => nomatch hstep.symm.trans he'
    · rw [htold, hstep]
      exact hakin.settleProgress _ _ _ _
    · rw [htold, hstep]
      rfl
  | ok rest e =>
    rw [hp] at hs
    cases rest with
    | none =>
      left
      unfold Dialogue.parts at hp
      rw [hp] at hstep
      obtain ⟨a', htold, hakin⟩ := hs
      exact h.completes hd (hakin.settleProgress _ _ _ _) htold hstep
    | some s =>
      right
      obtain ⟨t, kind, assigns, a', hpending, hle, hverb, htold, hakin⟩ := hs
      obtain ⟨hlevel, hkept⟩ := h.waits hd hakin hp
      obtain ⟨cursor, text, pending⟩ := s
      obtain rfl : pending = some t := hpending
      exact ⟨cursor, hle, text, t, kind, assigns, _, hlevel, standBy_standBy a' _ _, hkept, hverb,
        htold⟩

/-! ## 3. Turns -/

/-- **A turn without an answer** changes nothing. -/
theorem Pends.poll (hd : d.InPeace) {cursor : Nat} (h : d.Pends k n cursor)
    (hw : (d.turn k).Awaits d.instanceId d.component) : d.Pends (k + 1) n cursor := by
  obtain ⟨text, t, kind, assigns, a, hlevel, hstands, hprogress, hverb, htold⟩ := h
  obtain ⟨t', ht', ho⟩ := hw
  obtain rfl : t = t' := by
    unfold pendingOf at ht'
    rw [hprogress] at ht'
    exact Option.some.inj ht'
  have hparts : d.parts k = .ok (some ⟨cursor, text, some t⟩)
      ((d.begun k).setProgress d.instanceId d.component none) := by
    rw [hlevel.parts, hprogress]
    have hwaits : runVerb d.instanceId d.component kind assigns
        (d.record.payload.drop (cursor + 1)) ⟨cursor, text, some t⟩
        ((d.begun k).setProgress d.instanceId d.component none)
        = .ok (.waiting ⟨cursor, text, some t⟩)
          ((d.begun k).setProgress d.instanceId d.component none) :=
      bind_of_ok (transact_waiting (e := (d.begun k).setProgress d.instanceId d.component none)
        rfl ho)
    unfold runParts
    rw [scpiProgress, runPart_verb hverb, bind_of_ok hwaits]
    rfl
  obtain ⟨hnext, hkept⟩ := hlevel.waits hd hlevel.akin hparts
  rw [hstands] at hnext
  exact ⟨text, t, kind, assigns, a, hnext, hstands, hkept, hverb, htold⟩

/-- **A turn with an answer** ends the work as the interpretation does, or the component waits again
    behind the verb whose answer it was. -/
theorem Pends.hear (hd : d.InPeace) {cursor : Nat} (h : d.Pends k n cursor)
    (hw : ¬ (d.turn k).Awaits d.instanceId d.component) :
    d.Achieves k ∨ ∃ cursor', cursor < cursor' ∧ d.Pends (k + 1) (n + 1) cursor' := by
  obtain ⟨text, t, kind, assigns, a, hlevel, _, hprogress, hverb, htold⟩ := h
  have hpending : (d.turn k).pendingOf d.instanceId d.component = some t := by
    unfold pendingOf
    rw [hprogress]
    rfl
  have ho : (d.turn k).ledger.outcome? t = some (d.reaction n).outcome := by
    rcases hd.foreseen k t hlevel.lasts hpending with hwaits | hanswer
    · exact absurd ⟨t, hpending, hwaits⟩ hw
    · rwa [hlevel.requests] at hanswer
  have hserves : Meets (d.reaction (n + 1)) (d.begun k).dispatcher := by
    have hmeets := hd.serves k hlevel.lasts hw
    rwa [hlevel.requests] at hmeets
  have hparts := hlevel.parts
  rw [hprogress] at hparts
  have hmore : d.record.payload.length < cursor + 1 + d.record.payload.length := by omega
  have hheard : Refuses (d.begun k) (stateAfter (d.parts k))
      ∨ Stops d.instanceId d.component d.flow d.record.payload d.reaction (cursor + 1) (n + 1) a
        (d.begun k) d.told (d.parts k) := by
    rw [hparts, htold]
    exact stops_heard hlevel.akin hserves rfl ho hmore hverb
  rcases hheard with hfull | hstops
  · refine absurd (refuses_begun (hfull.grow ?_)) (hd.unrefused k hlevel.lasts)
    rw [step_eq hd.kind]
    exact grows_stepScpi (d.begun k) d.instanceId d.component d.record
  · exact hlevel.stops hd hstops

/-- **Every request comes to its answer**, after any number of turns without one. -/
theorem Pends.answered (hd : d.InPeace) {cursor gap : Nat} (h : d.Pends k n cursor)
    (hg : d.Lasts (k + gap) → ¬ (d.turn (k + gap)).Awaits d.instanceId d.component) :
    ∃ k', d.Pends k' n cursor ∧ ¬ (d.turn k').Awaits d.instanceId d.component := by
  induction gap generalizing k with
  | zero =>
    exact ⟨k, h, hg h.lasts⟩
  | succ gap ih =>
    by_cases hw : (d.turn k).Awaits d.instanceId d.component
    · refine ih (h.poll hd hw) ?_
      rwa [Nat.add_right_comm]
    · exact ⟨k, h, hw⟩

/-- **A component that waits reaches its end.** Every answer brings it on by a verb at least. -/
theorem Pends.achieves (hd : d.InPeace) {cursor : Nat} (h : d.Pends k n cursor) :
    ∃ k', d.Achieves k' := by
  generalize hleft : d.record.payload.length - cursor = left
  induction left using Nat.strong_induction_on generalizing k n cursor with
  | _ left ih =>
    obtain ⟨m, hle, hm⟩ := hd.settled k h.lasts
    obtain ⟨gap, rfl⟩ := Nat.exists_eq_add_of_le hle
    obtain ⟨k', hpends, hw⟩ := h.answered hd hm
    rcases hpends.hear hd hw with hends | ⟨cursor', hlt, hnext⟩
    · exact ⟨k', hends⟩
    · have hwithin := h.within
      exact ih _ (by omega) hnext rfl

/-- **The work comes to an end**, and to what the payload means. -/
theorem InPeace.achieves (hd : d.InPeace) : ∃ k, d.Achieves k := by
  have hlevel := level_opening d
  have hnone : (d.turn 0).pendingOf d.instanceId d.component = none := by
    unfold pendingOf
    rw [hd.fresh]
    rfl
  have hserves : Meets (d.reaction 0) (d.begun 0).dispatcher := by
    refine hd.serves 0 hlevel.lasts ?_
    rintro ⟨t, ht, _⟩
    rw [hnone] at ht
    cases ht
  have hparts := hlevel.parts
  rw [hd.fresh] at hparts
  have hmore : d.record.payload.length < 0 + (d.record.payload.length + 1) := by omega
  have hstops : Stops d.instanceId d.component d.flow d.record.payload d.reaction 0 0 d.opening
      (d.begun 0) d.told (d.parts 0) := by
    rw [hparts]
    exact stops_runParts hlevel.akin hserves rfl (Nat.le_refl 0) hmore
  rcases hlevel.stops hd hstops with hends | ⟨_, _, hpends⟩
  · exact ⟨0, hends⟩
  · exact hpends.achieves hd

end

theorem EndsAt.last {k' : Nat} (h : d.EndsAt k) (h' : d.Lasts k') : k' ≤ k := by
  by_contra hlt
  obtain ⟨e, he⟩ := h' k (Nat.lt_of_not_le hlt)
  exact h.2 e he

/-- The work ends once. -/
theorem EndsAt.unique {k' : Nat} (h : d.EndsAt k) (h' : d.EndsAt k') : k = k' :=
  Nat.le_antisymm (h'.last h.1) (h.last h'.1)

theorem InPeace.upshot (hd : d.InPeace) (h : d.EndsAt k) : d.upshot k = d.meaning := by
  obtain ⟨k', hends, hupshot⟩ := hd.achieves
  rw [h.unique hends]
  exact hupshot

end Dialogue

/-! ## 4. All dialogues -/

/-- **Suspensions are not seen.** For every payload, every instance, all that becomes of the
    requests and all numbers of turns in which that is not known yet: the work of an SCPI component
    that is left in peace comes to an end, and what comes of it -- the requests with their texts and
    kinds, the log entries, assignments and pulses, all in their order, the values that are stored
    then, and whether it is completed or which error it ends with -- is what the payload means from
    left to right. It is the same for every other dialogue that begins in the same way, however long
    or short the waits are in it. -/
theorem suspension_transparent (d : Dialogue) (hd : d.InPeace) :
    (∃ k, d.EndsAt k)
    ∧ (∀ k, d.EndsAt k → d.upshot k = d.meaning)
    ∧ ∀ d' : Dialogue, d.Resembles d' → d'.InPeace → ∀ k k', d.EndsAt k → d'.EndsAt k' →
      d'.upshot k' = d.upshot k := by
  refine ⟨?_, fun k hk => hd.upshot hk, fun d' hr hd' k k' hk hk' => ?_⟩
  · obtain ⟨k, hends, _⟩ := hd.achieves
    exact ⟨k, hends⟩
  · rw [hd'.upshot hk', hd.upshot hk, hr.meaning]

/-! ## 5. One question -/

/-- A component that asks the instrument for the value of a variable. The question is put together
    from a text and a constant. -/
def measuring : Component :=
  { kind := .scpi, payload := [1, 1, 0, 86, 2, 2, 0, 0, 224, 3, 0, 96, 0, 224, 6] }

def measuringDefinition : Definition :=
  { constants := [.undefined, .null, .string "?"], globals := [.null]
    flows := [{ name := "main", components := [measuring] }] }

/-- Its first turn. -/
def measuringStart : Engine :=
  ((built measuringDefinition {} (.desk { capacity := 4 }) {}).after
    [.order ⟨.startFlow 0, none⟩]).takeTask ⟨⟨0, 0⟩, 0, false⟩

/-- Its next turn comes. The instrument has taken the request, and may have answered it. -/
def measuringNext (answers : Bool) (e : Engine) : Engine :=
  { e.takeTask ⟨⟨0, 0⟩, 0, true⟩ with
    ledger := if answers then e.ledger.answer 0 ⟨"5", 0⟩ else e.ledger
    dispatcher := .desk { capacity := 4 } }

/-- Its turns, so many of them without an answer. -/
def measuringTurn (polls : Nat) : Nat → Engine
  | 0 => measuringStart
  | k + 1 => measuringNext (k == polls)
      ((measuringTurn polls k).runTask (fun _ _ _ => pure .completed) ⟨⟨0, 0⟩, 0, k != 0⟩)

def measurement (polls : Nat) : Dialogue where
  handler _ _ _ := pure .completed
  instanceId := ⟨0, 0⟩
  component := 0
  record := measuring
  turn := measuringTurn polls
  resumes k := k != 0
  reaction _ := .answered ⟨"5", 0⟩

/-- What of the peace of a measurement can be computed turn by turn. -/
def measurementCalm (polls k : Nat) : Bool :=
  let e := (measurement polls).turn k
  let next := stateAfter ((measurement polls).step k)
  (e.instance? ⟨0, 0⟩).all (fun s => !s.failed)
    && (e.pendingOf ⟨0, 0⟩ 0).all (fun t => e.ledger.outcome? t
      = some (if k = polls + 1 then .answered ⟨"5", 0⟩ else .waiting))
    && next.journal.all (fun | .refused _ => false | _ => true)
    && next.queue.size < next.queue.capacity

theorem inPeace_measurement {polls : Nat} (hends : (measurement polls).EndsAt (polls + 1))
    (hcalm : ∀ k ≤ polls + 1, measurementCalm polls k = true) : (measurement polls).InPeace := by
  have hchecks (k : Nat) (h : (measurement polls).Lasts k) := hcalm k (hends.last h)
  simp only [measurementCalm, Bool.and_eq_true, decide_eq_true_eq] at hchecks
  have hpending (k t : Nat) (h : (measurement polls).Lasts k)
      (ht : ((measurement polls).turn k).pendingOf ⟨0, 0⟩ 0 = some t) :
      ((measurement polls).turn k).ledger.outcome? t
        = some (if k = polls + 1 then .answered ⟨"5", 0⟩ else .waiting) := by
    obtain ⟨⟨⟨_, hanswers⟩, _⟩, _⟩ := hchecks k h
    rw [ht] at hanswers
    exact of_decide_eq_true hanswers
  refine ⟨rfl, rfl, rfl, rfl, fun k s h hs => ?_, fun k _ => ⟨rfl, rfl, rfl, rfl, rfl⟩,
    fun k _ _ r => ?_, fun k t h ht => ?_, fun k h => ⟨polls + 1, hends.last h, ?_⟩,
    fun k h => ?_, fun k e h he => ?_⟩
  · obtain ⟨⟨⟨hunfailed, _⟩, _⟩, _⟩ := hchecks k h
    rw [show ((measurement polls).turn k).instance? ⟨0, 0⟩ = some s from hs] at hunfailed
    simpa using hunfailed
  · cases k with
    | zero => exact ⟨_, rfl⟩
    | succ k => exact ⟨_, rfl⟩
  · have ho := hpending k t h ht
    split at ho
    · exact Or.inr ho
    · exact Or.inl ho
  · rintro h ⟨t, ht, ho⟩
    rw [hpending _ t h ht, if_pos rfl] at ho
    cases ho
  · obtain ⟨⟨_, hnone⟩, _⟩ := hchecks k h
    rintro ⟨news, t, hj, ht⟩
    have hmem : Event.refused t ∈ (stateAfter ((measurement polls).step k)).journal :=
      hj ▸ List.mem_append_left _ ht
    cases List.all_eq_true.mp hnone _ hmem
  · obtain ⟨_, hroom⟩ := hchecks k h
    rwa [he] at hroom

/-- One question and two ways of waiting for its answer: it comes at once, or after a turn without
    one. The question that is sent, and the value that the variable has then, are the same. -/
theorem suspension_transparent_measurement :
    (measurement 0).InPeace ∧ (measurement 1).InPeace ∧ (measurement 0).Resembles (measurement 1)
    ∧ (measurement 0).EndsAt 1 ∧ (measurement 1).EndsAt 2
    ∧ (measurement 1).upshot 2 = (measurement 0).upshot 1
    ∧ (measurement 1).upshot 2 = (measurement 1).meaning
    ∧ ((measurement 1).upshot 2).shown.filterMap (fun | .dispatched _ _ r => some r | _ => none)
      = [⟨0, .query, "V?"⟩] := by
  have hends₀ : (measurement 0).EndsAt 1 := by decide +kernel
  have hends₁ : (measurement 1).EndsAt 2 := by decide +kernel
  have hpeace₀ : (measurement 0).InPeace := inPeace_measurement hends₀ (by decide +kernel)
  have hpeace₁ : (measurement 1).InPeace := inPeace_measurement hends₁ (by decide +kernel)
  have hsame : (measurement 0).Resembles (measurement 1) := ⟨rfl, rfl, rfl, rfl, rfl⟩
  obtain ⟨_, _, hall⟩ := suspension_transparent (measurement 0) hpeace₀
  obtain ⟨_, hmeans, _⟩ := suspension_transparent (measurement 1) hpeace₁
  exact ⟨hpeace₀, hpeace₁, hsame, hends₀, hends₁, hall _ hsame hpeace₁ 1 2 hends₀ hends₁,
    hmeans 2 hends₁, by decide +kernel⟩

end InstrumentFlow
