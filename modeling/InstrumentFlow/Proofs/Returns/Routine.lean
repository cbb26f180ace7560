import InstrumentFlow.Proofs.Engine.Rounds
import InstrumentFlow.Proofs.Lasting.Unmoved

/-!
# What goes on between the milestones of an instance

Four events are milestones in the life of an instance: it begins, a component begins to wait for it,
a step of it begins, it gives back control. Nearly everything that happens is routine: no milestone,
and no new instance.

* `Event.isMilestone`, `Routine` -- the milestones; nothing but routine between two states;
* `Routine.tolerant`, `Routine.bury` -- small changes are routine, and so is the end of an instance;
* `Routine.raiseError`, `Routine.endStep` -- errors on their way, and what follows a step;
* `routinely_stepScpi`, `routinely_execute` -- so is every step but that of a call and of an end;
* `Routine.perform` -- and every order but a call, a start and those that let tasks have their turn.
-/

namespace InstrumentFlow

/-- Whether an event is a milestone in the life of an instance. -/
def Event.isMilestone : Event → Bool
  | created _ _ | stepped _ | returned _ _ _ | awaited (some _) _ _ => true
  | _ => false

/-- Whether the steps of components of the kind are routine: they neither begin an instance nor give
    back control. -/
def Kind.isRoutine : Kind → Bool
  | finish | callAction | host _ => false
  | _ => true

/-- Whether a command begins no instance and runs no task. -/
def Command.isRoutine : Command → Bool
  | startFlow _ | tick | runUntilIdle _ | call _ _ _ => false
  | _ => true

namespace Engine

/-! ## 1. States -/

/-- **Nothing but routine**: no milestone was reached, and whoever is there was there before. -/
structure Routine (e e' : Engine) : Prop where
  news : Adds Event.isMilestone e e'
  kept : ∀ j s', e'.instance? j = some s' → ∃ s, e.instance? j = some s ∧ s.SameCall s'

/-- Every component. -/
def everyone : InstanceId → Nat → Bool := fun _ _ => true

namespace Routine

variable {e e' e'' : Engine}

theorem refl (e : Engine) : Routine e e := ⟨.refl e, fun _ s hs => ⟨s, hs, .refl s⟩⟩

theorem trans (h : Routine e e') (h' : Routine e' e'') : Routine e e'' where
  news := h.news.trans h'.news
  kept j s'' hs'' := by
    obtain ⟨s', hs', hsame'⟩ := h'.kept j s'' hs''
    obtain ⟨s, hs, hsame⟩ := h.kept j s' hs'
    exact ⟨s, hs, hsame.trans hsame'⟩

/-- A change of what is neither told nor kept in instances. -/
theorem beside (hf : e'.forest = e.forest) (hj : e'.journal = e.journal) : Routine e e' := by
  refine ⟨.silent hj, fun j s hs => ⟨s, ?_, .refl s⟩⟩
  unfold instance? at hs ⊢
  rwa [← hf]

theorem record (e : Engine) {event : Event} (h : event.isMilestone = false) :
    Routine e (e.record event) := ⟨.record e h, fun _ s hs => ⟨s, hs, .refl s⟩⟩

theorem modifyInstance (e : Engine) (i : InstanceId) {change : Instance → Instance}
    (hc : ∀ s : Instance, s.SameCall (change s)) : Routine e (e.modifyInstance i change) := by
  refine ⟨.silent rfl, fun j s' hs' => ?_⟩
  rw [instance?_modifyInstance] at hs'
  split at hs'
  · next hj =>
    obtain ⟨s, hs, rfl⟩ := Option.map_eq_some_iff.mp hs'
    exact ⟨s, hj ▸ hs, hc s⟩
  · exact ⟨s', hs', .refl s'⟩

/-- **Small changes are routine.** -/
theorem tolerant : Tolerant everyone Routine where
  refl := refl
  trans := trans
  beside hf _ hj := beside hf hj
  record e event h := by
    refine record e ?_
    cases event with
    | created _ _ | stepped _ | returned _ _ _ | awaited _ _ _ => cases h
    | _ => rfl
  modifyInstance e i _ ha _ := modifyInstance e i ha
  setProgress e i _ _ _ := modifyInstance e i fun _ => ⟨rfl, rfl, rfl⟩
  noteProgress e _ _ _ := record e rfl

/-- **The end of an instance is routine.** -/
theorem bury (i : InstanceId) (e : Engine) : Routine e (Engine.bury i e).2 := by
  have hstripped : Routine e (e.stripped i) := by
    unfold stripped
    generalize ((e.instance? i).map Instance.openComponents).getD [] = cs
    induction cs generalizing e with
    | nil => exact refl e
    | cons c cs ih => exact (tolerant.releaseProgress e rfl).trans (ih _)
  cases hi : e.instance? i with
  | none =>
    rw [bury_of_none hi]
    exact (record e rfl).trans (beside rfl rfl)
  | some s =>
    obtain ⟨s₁, forest, hr, _, he⟩ := bury_of_some hi
    rw [he]
    refine hstripped.trans ⟨⟨[.destroyed i], rfl, by simp [Event.isMilestone]⟩, fun j t' ht' => ?_⟩
    obtain ⟨_, t, _, ht, rfl⟩ := Forest.get?_remove_children hr ht'
    exact ⟨t, ht, rfl, rfl, rfl⟩

theorem startAsync (e : Engine) (i : InstanceId) (component : Nat) :
    Routine e (e.startAsync none i component) :=
  (record e rfl).trans (tolerant.markAsync _ i component true)

theorem raiseError (e : Engine) (i : InstanceId) (component : Nat) (message : String) :
    Routine e (e.raiseError i component message) :=
  tolerant.raiseError e (fun _ _ _ => rfl) i component message

theorem endStep (e : Engine) (i : InstanceId) (component : Nat) (midway : Bool) :
    Routine e (e.endStep i component midway) := by
  have hset : Routine e { e with executing := none } := beside rfl rfl
  exact hset.trans (record _ rfl)

theorem continueLater (e : Engine) (i : InstanceId) (component : Nat) :
    Routine e (e.continueLater i component) := by
  have hqueued : Routine e (e.enqueue ⟨i, component, true⟩).2 := tolerant.enqueue e _
  unfold Engine.continueLater
  split
  · next he =>
    rw [he] at hqueued
    exact hqueued
  · next e₁ he =>
    rw [he] at hqueued
    have hreleased : Routine e₁ (e₁.releaseProgress i component) := tolerant.releaseProgress e₁ rfl
    exact (hqueued.trans hreleased).trans (tolerant.failFatally _ i component _)

/-- **What follows from the outcome of a step** is routine. -/
theorem settleOutcome (i : InstanceId) (component : Nat)
    (outcome : EStateM.Result FlowError Engine Step) :
    Routine (stateAfter outcome) (Engine.settleOutcome i component outcome) := by
  match outcome with
  | .ok .completed e => exact endStep e i component false
  | .ok .suspended e => exact (endStep e i component true).trans (continueLater _ i component)
  | .error err e =>
    exact ((endStep e i component false).trans (tolerant.releaseProgress _ rfl)).trans
      (raiseError _ i component _)

end Routine

/-! ## 2. Steps -/

/-- A request is sent, served or lost. -/
theorem Routine.request (e : Engine) (ledger : Scpi.Ledger) (dispatcher : Dispatcher) :
    Routine e { e with ledger, dispatcher } := .beside rfl rfl

theorem routinely_transact (i : InstanceId) (component : Nat) (kind : Scpi.RequestKind)
    (s : ScpiProgress) : Maintains Routine (transact i component kind s) := by
  have hdispatch : Maintains Routine (dispatch i component kind s.text) := by
    unfold dispatch
    refine .get fun e => ?_
    dsimp only
    split
    · exact upholds_set_bind (upholds_pure ((Routine.request e _ _).trans (.record _ rfl)) trivial)
    · exact upholds_set_bind (upholds_throw (.beside rfl rfl))
  unfold transact
  split
  · exact Routine.tolerant.bind (.modify fun e => Routine.tolerant.log e i component _) fun _ =>
      Routine.tolerant.bind hdispatch fun _ => Routine.tolerant.pure _
  · refine .get fun e => ?_
    have hpoll (ledger : Scpi.Ledger) : Routine e { e with ledger } := .beside rfl rfl
    dsimp only
    split
    · exact upholds_set_bind (upholds_throw (hpoll _))
    · exact upholds_set_bind (upholds_pure (hpoll _) trivial)
    · exact upholds_set_bind (upholds_pure ((hpoll _).trans (.record _ rfl)) trivial)

theorem routinely_runVerb (i : InstanceId) (component : Nat) (kind : Scpi.RequestKind)
    (assigns : Bool) (body : List UInt8) (s : ScpiProgress) :
    Maintains Routine (runVerb i component kind assigns body s) := by
  have hR := Routine.tolerant
  unfold runVerb
  refine hR.bind (routinely_transact i component kind s) fun r => ?_
  obtain ⟨response, s'⟩ := r
  dsimp only
  split
  · exact hR.pure _
  next r =>
  have hgoes : Maintains Routine (do
      let consumed ← if assigns then assignAnswer i component body r.text else pure 0
      return Walk.onward { s' with cursor := s'.cursor + 1 + consumed, text := "" }) := by
    dsimp only
    split
    · exact hR.bind (hR.maintains_assignAnswer i component body r.text) fun _ => hR.pure _
    · exact hR.bind (hR.pure 0) fun _ => hR.pure _
  split
  · exact .get fun e => hR.throw _ e
  · split
    · exact hR.bind (.modify fun e => hR.log e i component _) fun _ => hgoes
    · exact hgoes

theorem routinely_runParts (i : InstanceId) (component flow : Nat) (payload : List UInt8)
    (more : Nat) (s : ScpiProgress) :
    Maintains Routine (runParts i component flow payload more s) := by
  have hR := Routine.tolerant
  have hpart (s : ScpiProgress) : Maintains Routine (runPart i component flow payload s) := by
    unfold runPart
    dsimp only
    split
    · exact hR.throw _
    · exact hR.pure _
    · exact hR.bind (hR.maintains_evaluateIn _ i _ [] false) fun v =>
        hR.bind (hR.maintains_textOf _) fun _ => hR.pure _
    · exact routinely_runVerb i component _ _ _ s
    · exact routinely_runVerb i component _ _ _ s
    · exact routinely_runVerb i component _ _ _ s
    · exact hR.pure _
  induction more generalizing s with
  | zero => exact hR.throw _
  | succ more ih =>
    unfold runParts
    refine hR.bind (hpart s) fun w => ?_
    split
    · exact ih _
    · exact hR.pure _
    · exact hR.pure _

theorem routinely_stepScpi (i : InstanceId) (index : Nat) (c : Component) :
    Maintains Routine (stepScpi i index c) := by
  have hR := Routine.tolerant
  have hcheckIn (hadProgress : Bool) (p : Option Progress) :
      Maintains Routine (checkIn i index hadProgress p) := hR.maintains_checkIn rfl hadProgress p
  unfold stepScpi
  refine hR.bind (hR.maintains_checkOut rfl) fun p => .read fun e₀ => ?_
  have hparts : Maintains Routine (tryCatch (runParts i index (e₀.flowIndex i) c.payload
      (c.payload.length + 1) (scpiProgress p)) fun err => do
        checkIn i index p.isSome none
        throw err) := by
    intro e
    refine upholds_tryCatch (routinely_runParts i index _ _ _ _ e) fun err e' h => ?_
    exact hR.after (hR.bind (hcheckIn _ none) fun _ => hR.throw _) h
  refine hR.bind hparts fun outcome => ?_
  split
  · exact hR.bind (hcheckIn _ _) fun _ => hR.pure _
  · exact hR.bind (hcheckIn _ none) fun _ => hR.bind (hR.maintains_pulse i index) fun _ => hR.pure _

/-- **The step of most components is routine.** -/
theorem routinely_execute (handler : Handler) (i : InstanceId) (index : Nat) {c : Component}
    (hk : c.kind.isRoutine = true) : Maintains Routine (execute handler i index c) := by
  cases hm : c.kind.isModest with
  | true => exact Routine.tolerant.maintains_execute rfl handler hm
  | false =>
    cases hc : c.kind with
    | scpi =>
      unfold execute
      rw [hc]
      exact routinely_stepScpi i index c
    | finish | callAction | host _ =>
      rw [hc] at hk
      cases hk
    | _ =>
      rw [hc] at hm
      cases hm

/-! ## 3. Orders -/

namespace Routine

/-- At the desk nothing happens to instances. -/
theorem desk (handler : Handler) {command : Command} (hc : command.isDesk = true) (e : Engine) :
    Routine e (Engine.perform handler command e).2 := by
  obtain ⟨ledger, dispatcher, he⟩ := perform_desk handler hc e
  rw [he]
  exact request e ledger dispatcher

/-- **Most commands are routine.** -/
theorem perform (handler : Handler) {command : Command} (hc : command.isRoutine = true)
    (e : Engine) : Routine e (perform handler command e).2 := by
  cases hm : command.isModest with
  | true => exact tolerant.perform handler hm e
  | false =>
    cases command with
    | shutdown => exact tolerant.shutdown bury e
    | setHostState i component state =>
      cases state with
      | some n => exact tolerant.allocateProgress e rfl (.host n)
      | none => exact tolerant.releaseProgress e rfl
    | raiseError i component message => exact raiseError e i component message
    | startAsync i component => exact startAsync e i component
    | endAsync i component => exact tolerant.endAsync bury e none i component
    | respond _ _ | dropRequest _ | leaveDesk => exact desk handler rfl e
    | startFlow _ | tick | runUntilIdle _ | call _ _ _ => cases hc
    | _ => cases hm

end Routine

end Engine

end InstrumentFlow
