import InstrumentFlow.Bytecode.Assembler
import InstrumentFlow.Proofs.Counting.Amid
import InstrumentFlow.Proofs.Delays.Moments
import InstrumentFlow.Proofs.Engine.Reached

/-!
# Delays

A delay begins with the value of its property, which any expression may have computed. If the moment
at which it would end cannot be named the run breaks down; otherwise the component waits.

* `Waits` -- the component waits until a moment, and nothing broke down;
* `stepDelay_waiting`, `stepDelay_over` -- a delay under way;
* `stepDelay_begins`, `beginDelay_waits`, `beginDelay_breaks` -- a delay that begins;
* `Begins` -- what becomes of a delay of so many milliseconds;
* `delay_step` -- **which delays have an end**;
* `not_every_delay_waits` -- not every delay that begins waits or fails.
-/

namespace InstrumentFlow.Engine

open Numeric

variable {e e₁ : Engine} {i : InstanceId} {index : Nat}

/-- **The component waits until this moment**, and nothing broke down on the way. -/
def Waits (e : Engine) (i : InstanceId) (index wakeAt : Nat)
    (outcome : EStateM.Result FlowError Engine Step) : Prop :=
  ∃ e', outcome = .ok .suspended e' ∧ e'.progress? i index = some (.delay wakeAt)
    ∧ e'.breakdown = e.breakdown

/-! ## 1. Progress -/

theorem checkOut_eq (e : Engine) (i : InstanceId) (index : Nat) :
    checkOut i index e = .ok (e.progress? i index) (e.setProgress i index none) := rfl

theorem hasComponent_setProgress (e : Engine) (i : InstanceId) (index : Nat)
    (p : Option Progress) :
    (e.setProgress i index p).hasComponent i index = e.hasComponent i index := by
  unfold hasComponent
  rw [instance?_setProgress, if_pos rfl]
  cases e.instance? i with
  | none => rfl
  | some s => simp [Instance.setProgress]

/-- Progress is put back, and the component waits. -/
theorem waits_checkIn (hplace : e₁.hasComponent i index = true)
    (hb : e₁.breakdown = e.breakdown) (hadProgress : Bool) (wakeAt : Nat) :
    Waits e i index wakeAt
      ((do checkIn i index hadProgress (some (.delay wakeAt)); return Step.suspended) e₁) := by
  have hsettle : (e₁.settleProgress i index hadProgress (some (.delay wakeAt))).breakdown
      = e₁.breakdown := by
    unfold settleProgress
    rw [if_pos hplace]
    dsimp only
    split <;> rfl
  exact ⟨_, rfl, progress?_settleProgress hplace _ _, hsettle.trans hb⟩

/-! ## 2. Steps -/

/-- **A delay that is not over** goes on until the same moment. -/
theorem stepDelay_waiting {wakeAt : Nat} (hplace : e.hasComponent i index = true)
    (hp : e.progress? i index = some (.delay wakeAt)) (hw : e.clock < wakeAt) :
    Waits e i index wakeAt (stepDelay i index e) := by
  have hplace₁ := (hasComponent_setProgress e i index none).trans hplace
  have hclock : (e.setProgress i index none).clock < wakeAt := hw
  unfold stepDelay
  rw [bind_of_ok (checkOut_eq e i index), hp]
  dsimp only
  rw [get_bind_apply, if_pos hclock]
  exact waits_checkIn hplace₁ rfl true wakeAt

/-- **A delay that is over** sends its pulse; no moment is computed any more. -/
theorem stepDelay_over {wakeAt : Nat} (hp : e.progress? i index = some (.delay wakeAt))
    (hw : wakeAt ≤ e.clock) :
    stepDelay i index e = (do
      checkIn i index true none
      pulse i index
      return Step.completed) (e.setProgress i index none) := by
  have hclock : ¬ (e.setProgress i index none).clock < wakeAt := Nat.not_lt.mpr hw
  unfold stepDelay
  rw [bind_of_ok (checkOut_eq e i index), hp]
  dsimp only
  rw [get_bind_apply, if_neg hclock]

/-- **A delay that is not under way** begins. -/
theorem stepDelay_begins (hp : ∀ wakeAt, e.progress? i index ≠ some (.delay wakeAt)) :
    stepDelay i index e = beginDelay i index (e.setProgress i index none) := by
  unfold stepDelay
  rw [bind_of_ok (checkOut_eq e i index)]
  cases hprogress : e.progress? i index with
  | none => rfl
  | some p =>
    cases p with
    | delay wakeAt => exact absurd hprogress (hp wakeAt)
    | _ => rfl

section

variable {v : Value} (hv : evaluateProperty i index 0 [] false e = .ok v e₁)
include hv

/-- A value that was computed leaves all but the stack and the heap as it was. -/
theorem evaluateProperty_aside : e₁.clock = e.clock ∧ e₁.breakdown = e.breakdown
    ∧ e₁.hasComponent i index = e.hasComponent i index := by
  obtain ⟨hrest, hb⟩ := (upholds_evaluateProperty_computes e i index 0 [] false).of_ok hv
  unfold Computes at hrest
  refine ⟨?_, hb, ?_⟩
  · rw [hrest]
  · rw [hrest]
    rfl

theorem beginDelay_waits (hplace : e.hasComponent i index = true) {wakeAt : Nat}
    (hw : wakeTime? e.clock v.toDouble = some wakeAt) :
    Waits e i index wakeAt (beginDelay i index e) := by
  obtain ⟨hclock, hb, hplace₁⟩ := evaluateProperty_aside hv
  unfold beginDelay
  rw [bind_of_ok hv, get_bind_apply, hclock, hw]
  exact waits_checkIn (hplace₁.trans hplace) hb false wakeAt

theorem beginDelay_breaks (hw : wakeTime? e.clock v.toDouble = none) :
    ∃ e', beginDelay i index e = .ok .completed e'
      ∧ e'.breakdown = e.breakdown.or (some .endlessDelay) := by
  obtain ⟨hclock, hb, _⟩ := evaluateProperty_aside hv
  unfold beginDelay
  rw [bind_of_ok hv, get_bind_apply, hclock, hw]
  refine ⟨_, rfl, ?_⟩
  rw [← hb]
  rfl

/-- The component waits until the moment that was named. -/
theorem wakeTime?_of_waits (hplace : e.hasComponent i index = true) {wakeAt : Nat}
    (hw : Waits e i index wakeAt (beginDelay i index e)) :
    wakeTime? e.clock v.toDouble = some wakeAt := by
  obtain ⟨e', houtcome, hprogress, _⟩ := hw
  cases hnamed : wakeTime? e.clock v.toDouble with
  | none =>
    obtain ⟨_, hbreaks, _⟩ := beginDelay_breaks hv hnamed
    cases houtcome.symm.trans hbreaks
  | some named =>
    obtain ⟨_, hwaits, hprogress', _⟩ := beginDelay_waits hv hplace hnamed
    cases houtcome.symm.trans hwaits
    cases hprogress.symm.trans hprogress'
    rfl

end

/-! ## 3. Which delays have an end -/

/-- **A delay of so many milliseconds began**, from 2 ^ 63 seconds on without an end. -/
structure Begins (e : Engine) (i : InstanceId) (index : Nat) (millis : Binary64)
    (outcome : EStateM.Result FlowError Engine Step) : Prop where
  /-- No moment is late enough, whenever the delay begins, and the run breaks down. -/
  breaks : millis.AtLeast (momentBound * 1000) → ∃ e', outcome = .ok .completed e'
    ∧ e'.breakdown = e.breakdown.or (some .endlessDelay)
  /-- Every shorter delay waits, if it begins early enough. -/
  waits : ¬ millis.AtLeast (momentBound * 1000) → e.clock < 1024 * nanosPerSecond →
    ∃ wakeAt, Waits e i index wakeAt outcome ∧ e.clock ≤ wakeAt
  /-- One of less than a whole number of seconds that are left waits no longer than these. -/
  atMost : ∀ seconds : Nat, seconds < twoTo 53 → ¬ millis.AtLeast (seconds * 1000) →
    e.clock + seconds * nanosPerSecond < momentBound * nanosPerSecond →
    ∃ wakeAt, Waits e i index wakeAt outcome ∧ e.clock ≤ wakeAt
      ∧ wakeAt ≤ e.clock + seconds * nanosPerSecond
  /-- One of so many seconds waits at least as long. -/
  atLeast : ∀ seconds : Nat, seconds < twoTo 53 → millis.AtLeast (seconds * 1000) →
    ∀ wakeAt, Waits e i index wakeAt outcome → e.clock + seconds * nanosPerSecond ≤ wakeAt

theorem begins_of_value {v : Value} (hplace : e.hasComponent i index = true)
    (hv : evaluateProperty i index 0 [] false e = .ok v e₁) :
    Begins e i index v.toDouble (beginDelay i index e) where
  breaks hx := beginDelay_breaks hv (wakeTime?_of_atLeast e.clock hx)
  waits hx hearly := by
    obtain ⟨wakeAt, hw, hnow⟩ := exists_wakeTime?_early hx hearly
    exact ⟨wakeAt, beginDelay_waits hv hplace hw, hnow⟩
  atMost seconds hs hx hroom := by
    obtain ⟨rank, hrank, hvalue⟩ :=
      Binary.exists_rank (m := seconds) (e := 0) hs (by omega) (by omega)
    obtain ⟨wakeAt, hw, hnow, hmost⟩ := exists_wakeTime? hrank (by simpa using hvalue) hx hroom
    exact ⟨wakeAt, beginDelay_waits hv hplace hw, hnow, hmost⟩
  atLeast seconds hs hx wakeAt hwaits := by
    obtain ⟨rank, hrank, hvalue⟩ :=
      Binary.exists_rank (m := seconds) (e := 0) hs (by omega) (by omega)
    exact le_wakeTime? hrank (by simpa using hvalue) hx (wakeTime?_of_waits hv hplace hwaits)

/-- **Which delays have an end.** In every state that a run comes to, between and in the middle of
    its steps, a delay that is not over waits on until the same moment, and one that is over sends
    its pulse. One that begins fails if its property does. If the property has a value, of whatever
    kind, it is read as a number of 64 bits, in milliseconds. From 2 ^ 63 seconds on, infinity
    included, the run breaks down, whenever the delay begins; negative numbers, what is no number
    and everything below 2 ^ 63 seconds waits, if the delay begins early enough. -/
theorem delay_step {d : Definition} (hr : Reached d e) {c : Component}
    (hc : e.componentOf? i index = some c) (hk : c.kind = .delay) (handler : Handler) :
    (∀ wakeAt, e.progress? i index = some (.delay wakeAt) → e.clock < wakeAt →
      Waits e i index wakeAt (execute handler i index c e))
    ∧ (∀ wakeAt, e.progress? i index = some (.delay wakeAt) → wakeAt ≤ e.clock →
      execute handler i index c e = (do
        checkIn i index true none
        pulse i index
        return Step.completed) (e.setProgress i index none))
    ∧ ((∀ wakeAt, e.progress? i index ≠ some (.delay wakeAt)) →
      (∀ err e', evaluateProperty i index 0 [] false (e.setProgress i index none) = .error err e' →
        execute handler i index c e = .error err e')
      ∧ ∀ v e', evaluateProperty i index 0 [] false (e.setProgress i index none) = .ok v e' →
        Begins e i index v.toDouble (execute handler i index c e)) := by
  have hplace := hasComponent_of_componentOf? hr.inv hc
  have hplace₀ := (hasComponent_setProgress e i index none).trans hplace
  have hexecute : execute handler i index c e = stepDelay i index e := by
    unfold execute
    rw [hk]
  rw [hexecute]
  refine ⟨fun wakeAt hp hw => stepDelay_waiting hplace hp hw,
    fun wakeAt hp hw => stepDelay_over hp hw, fun hp => ?_⟩
  rw [stepDelay_begins hp]
  refine ⟨fun err e' herror => bind_of_error herror, fun v e' hv => ?_⟩
  -- taking progress away changes neither the clock nor what broke down
  obtain ⟨hbreaks, hwaits, hmost, hleast⟩ := begins_of_value hplace₀ hv
  exact ⟨hbreaks, hwaits, hmost, hleast⟩

/-- A flow of one delay of so many milliseconds. -/
def delayDefinition (millis : Literal) : Definition :=
  { constants := [.undefined, .null, millis]
    flows :=
      [{ name := "main"
         components :=
           [{ kind := .delay, properties := [⟨(({} : Bytecode.Assembler).constant 2).finish⟩] }] }] }

/-- The flow has been started, and its delay is about to begin. -/
def delayStarted (millis : Literal) : Engine :=
  (built (delayDefinition millis) {} .absent {}).after [.order ⟨.startFlow 0, none⟩]

/-- A delay of one and a half seconds waits for more than one second and for less than two. -/
theorem delay_step_short :
    ∃ c, Reached (delayDefinition (.int 1500)) (delayStarted (.int 1500))
    ∧ (delayStarted (.int 1500)).componentOf? ⟨0, 0⟩ 0 = some c ∧ c.kind = .delay
    ∧ (delayStarted (.int 1500)).progress? ⟨0, 0⟩ 0 = none
    ∧ ∃ wakeAt, Waits (delayStarted (.int 1500)) ⟨0, 0⟩ 0 wakeAt
        (execute handler ⟨0, 0⟩ 0 c (delayStarted (.int 1500)))
      ∧ nanosPerSecond ≤ wakeAt ∧ wakeAt ≤ 2 * nanosPerSecond := by
  have hr : Reached (delayDefinition (.int 1500)) (delayStarted (.int 1500)) :=
    reached_after rfl _
  obtain ⟨c, hc, hk⟩ : ∃ c, (delayStarted (.int 1500)).componentOf? ⟨0, 0⟩ 0 = some c
      ∧ c.kind = .delay := ⟨_, rfl, rfl⟩
  have hp : (delayStarted (.int 1500)).progress? ⟨0, 0⟩ 0 = none := rfl
  have hclock : (delayStarted (.int 1500)).clock = 0 := rfl
  have hamount : (Value.int 1500).toDouble.amount? = some (.finite (1500 : Int)) :=
    Binary.amount?_ofInt (i := 1500) (by decide)
  obtain ⟨_, _, hbegins⟩ := delay_step hr hc hk handler
  obtain ⟨_, hvalue⟩ := hbegins fun wakeAt h => nomatch hp.symm.trans h
  have hstep := hvalue (.int 1500) _ rfl
  obtain ⟨wakeAt, hwaits, _, hless⟩ := hstep.atMost 2 (by decide)
    (by rw [Binary.atLeast_iff hamount]; norm_num) (by rw [hclock]; decide)
  have hmore := hstep.atLeast 1 (by decide) (by rw [Binary.atLeast_iff hamount]; norm_num) wakeAt
    hwaits
  rw [hclock, Nat.zero_add] at hless hmore
  exact ⟨c, hr, hc, hk, hp, wakeAt, hwaits, by omega, hless⟩

/-- **Not every delay that begins waits or fails**: one of 10 ^ 22 milliseconds breaks the run
    down. -/
theorem not_every_delay_waits :
    ¬ ∀ (d : Definition) (e : Engine) (c : Component) (i : InstanceId) (index : Nat), Reached d e →
      e.componentOf? i index = some c → c.kind = .delay → e.progress? i index = none →
        (∃ wakeAt, Waits e i index wakeAt (execute handler i index c e))
          ∨ ∃ err e', execute handler i index c e = .error err e' := by
  intro h
  have hr : Reached (delayDefinition (.double (.ofInt (10 ^ 22))))
      (delayStarted (.double (.ofInt (10 ^ 22)))) := reached_after rfl _
  have hp : (delayStarted (.double (.ofInt (10 ^ 22)))).progress? ⟨0, 0⟩ 0 = none := rfl
  have hnamed : wakeTime? 0 (Value.double (.ofInt (10 ^ 22))).toDouble = none := by
    decide +kernel
  obtain ⟨e', hbreaks, _⟩ : ∃ e', beginDelay ⟨0, 0⟩ 0
      ((delayStarted (.double (.ofInt (10 ^ 22)))).setProgress ⟨0, 0⟩ 0 none) = .ok .completed e'
      ∧ e'.breakdown = some .endlessDelay :=
    beginDelay_breaks rfl hnamed
  rw [← stepDelay_begins fun _ hdelay => nomatch hp.symm.trans hdelay] at hbreaks
  rcases h _ _ _ ⟨0, 0⟩ 0 hr rfl rfl hp with ⟨_, _, hwaits, _⟩ | ⟨_, _, herror⟩
  · cases hwaits.symm.trans hbreaks
  · cases herror.symm.trans hbreaks

end InstrumentFlow.Engine
