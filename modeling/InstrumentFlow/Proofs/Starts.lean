import InstrumentFlow.Proofs.Dialogue.Follow
import InstrumentFlow.Proofs.Engine.Reached
import InstrumentFlow.Proofs.Stopping

/-!
# Starts that fail

A start fails exactly if there is no such flow. It has counted the run as going on by then, and that
is not taken back.

* `unstopped`, `startFlow_cases` -- what a start leaves that finds no flow;
* `call_unknown` -- a call that finds none leaves everything as it was;
* `runTasks_of_deserted`, `tick_unstopped_of_deserted` -- after a stop nothing is done by going on;
* `failed_start` -- **what a start that fails has changed**, and where that is nothing.
-/

namespace InstrumentFlow.Engine

/-! ## 1. Starts -/

/-- **The state in which the run counts as going on**, with no stop asked for and no error known. -/
def unstopped (e : Engine) : Engine :=
  { e.record .restarted with stopped := false, stopRequested := false, lastError := none }

/-- The same state, whatever led to it. -/
def SameState (e e' : Engine) : Prop := { e' with journal := e.journal } = e

variable {e : Engine}

/-- Going on is nothing new exactly if nothing was stopped, asked for or known. -/
theorem sameState_unstopped_iff :
    SameState e e.unstopped ↔ e.isStopped = false ∧ e.lastError = none := by
  unfold isStopped
  rw [Bool.or_eq_false_iff]
  constructor
  · intro h
    have hstopped := congrArg stopped h
    have hpending := congrArg stopRequested h
    have herror := congrArg lastError h
    exact ⟨⟨hstopped.symm, hpending.symm⟩, herror.symm⟩
  · rintro ⟨⟨hstopped, hpending⟩, herror⟩
    cases e
    cases hstopped
    cases hpending
    cases herror
    rfl

/-- **A start finds its flow, or leaves the run going on.** -/
theorem startFlow_cases (e : Engine) (flow : Nat) :
    (e.definition.flows.length ≤ flow ∧ startFlow flow e = .error (.unknownFlow flow) e.unstopped)
    ∨ (flow < e.definition.flows.length ∧ ∃ i e', startFlow flow e = .ok i e') := by
  have hstart : startFlow flow e = create flow none false e.unstopped := rfl
  rw [hstart]
  rcases Nat.lt_or_ge flow e.definition.flows.length with hlt | hle
  · refine Or.inr ⟨hlt, ?_⟩
    unfold create
    rw [get_bind_apply]
    have hflow : e.unstopped.definition.flows[flow]? = some e.definition.flows[flow] :=
      List.getElem?_eq_getElem hlt
    rw [hflow]
    exact ⟨_, _, rfl⟩
  · refine Or.inl ⟨hle, ?_⟩
    unfold create
    rw [get_bind_apply]
    have hflow : e.unstopped.definition.flows[flow]? = none := List.getElem?_eq_none hle
    rw [hflow]
    rfl

/-- **A call of a flow that there is not** leaves everything as it was. -/
theorem call_unknown {flow : Nat} (h : e.definition.flows.length ≤ flow) (i : InstanceId)
    (component : Nat) : call i component flow e = .error (.unknownFlow flow) e := by
  have hcreate : create flow (some (i, component)) true e = .error (.unknownFlow flow) e := by
    unfold create
    rw [get_bind_apply, List.getElem?_eq_none h]
    rfl
  unfold call
  rw [bind_of_error hcreate]

/-! ## 2. Going on with nobody there -/

/-- **With nobody there** turns only throw tasks away. -/
theorem runTasks_of_deserted (handler : Handler) (n : Nat) (allowance : Option Nat)
    (report : TickReport) (hn : ∀ i, e.instance? i = none) (hp : e.stopRequested = false) :
    (runTasks handler n allowance report e).1.executed = report.executed
      ∧ (runTasks handler n allowance report e).2.stopRequested = false
      ∧ (runTasks handler n allowance report e).2.stopped = e.stopped := by
  induction n generalizing allowance report e with
  | zero => exact ⟨rfl, hp, rfl⟩
  | succ n ih =>
    unfold runTasks
    rw [if_neg (by simp [hp])]
    split
    · exact ⟨rfl, hp, rfl⟩
    dsimp only
    split
    · exact ⟨rfl, hp, rfl⟩
    · next t ts _ =>
      have hgone : e.forest.get? t.instanceId = none := hn t.instanceId
      rw [if_pos (by simp [Forest.contains, hgone])]
      exact ih (e := (e.takeTask t).record (.discarded t)) _
        { report with discarded := report.discarded + 1 } hn hp

/-- A run that goes on with nobody there does nothing, and does not count as stopped. -/
theorem tick_unstopped_of_deserted (handler : Handler) (allowance : Option Nat)
    (hn : ∀ i, e.instance? i = none) :
    (e.unstopped.tick handler allowance).1.executed = 0
      ∧ (e.unstopped.tick handler allowance).1.stopped = false := by
  have hend (report : TickReport) {e' : Engine} (hp : e'.stopRequested = false)
      (hs : e'.stopped = false) : (endTick report e').1.executed = report.executed
        ∧ (endTick report e').1.stopped = false := by
    unfold endTick
    rw [if_neg (by simp [hp])]
    exact ⟨rfl, hs⟩
  unfold tick
  split
  · obtain ⟨hexecuted, hp, hs⟩ := runTasks_of_deserted (e := e.unstopped) handler
      e.unstopped.queue.size allowance {} hn rfl
    obtain ⟨hreport, hstopped⟩ := hend _ hp (hs.trans rfl)
    exact ⟨hreport.trans hexecuted, hstopped⟩
  · exact hend {} rfl rfl

/-- A start that failed leaves a stop that was pending no longer pending. -/
theorem kept_unstopped (handler : Handler) (i : InstanceId) :
    (e.unstopped.tick handler (some 0)).2.instance? i = e.instance? i := by
  have hspent (n : Nat) : runTasks handler n (some 0) {} e.unstopped
      = (if n = 0 then {} else { budgetExhausted := true }, e.unstopped) := by
    cases n <;> rfl
  have hend (report : TickReport) : (endTick report e.unstopped).2.instance? i = e.instance? i := rfl
  unfold tick
  split
  · rw [hspent]
    exact hend _
  · exact hend _

/-! ## 3. What a failure leaves behind -/

/-- **A start that fails** has counted the run as going on. It fails exactly if there is no such
    flow, where a call would have left everything as it was. Nothing but the stop, the request for
    one and the last error is different afterwards, and they are different unless there was none of
    them. So a run that was over does not count as stopped any more, with nobody there to do
    anything, and those whom a pending stop would have ended stay. -/
theorem failed_start {d : Definition} {e : Engine} (h : Reached d e) (flow : Nat) :
    ((∃ err e', startFlow flow e = .error err e') ↔ d.flows.length ≤ flow)
    ∧ (d.flows.length ≤ flow → ∀ i component, call i component flow e = .error (.unknownFlow flow) e)
    ∧ ∀ err e', startFlow flow e = .error err e' →
      err = .unknownFlow flow
      ∧ e' = e.unstopped
      ∧ (SameState e e' ↔ e.isStopped = false ∧ e.lastError = none)
      ∧ (e.stopped = true → ∀ handler allowance,
        (e.tick handler allowance).1.stopped = true
        ∧ (e'.tick handler allowance).1.executed = 0
        ∧ (e'.tick handler allowance).1.stopped = false)
      ∧ (e.stopRequested = true → ∀ handler allowance,
        (e.tick handler allowance).2.Over
        ∧ ∀ i, (e'.tick handler (some 0)).2.instance? i = e.instance? i) := by
  have hd : e.definition = d := h.definition
  have hi := h.inv
  refine ⟨?_, fun hle i component => call_unknown (hd ▸ hle) i component, fun err e' hfail => ?_⟩
  · rw [← hd]
    rcases startFlow_cases e flow with ⟨hle, hstart⟩ | ⟨hlt, i, e', hstart⟩
    · exact iff_of_true ⟨_, _, hstart⟩ hle
    · refine iff_of_false ?_ (Nat.not_le_of_lt hlt)
      rintro ⟨err, e'', hfail⟩
      rw [hstart] at hfail
      cases hfail
  · obtain ⟨rfl, rfl⟩ : err = .unknownFlow flow ∧ e' = e.unstopped := by
      rcases startFlow_cases e flow with ⟨_, hstart⟩ | ⟨_, i, e'', hstart⟩
      · rw [hstart] at hfail
        obtain ⟨rfl, rfl⟩ := EStateM.Result.error.inj hfail
        exact ⟨rfl, rfl⟩
      · rw [hstart] at hfail
        cases hfail
    refine ⟨rfl, rfl, sameState_unstopped_iff, fun hs handler allowance => ?_,
      fun hp handler allowance => ⟨?_, kept_unstopped handler⟩⟩
    · have hstopped : e.isStopped = true := by simp [isStopped, hs]
      have htick : (e.tick handler allowance).1.stopped = true := by
        rw [tick_of_isStopped hstopped]
        unfold endTick
        split
        · rfl
        · exact hs
      exact ⟨htick, tick_unstopped_of_deserted handler allowance (h.deserted hs)⟩
    · exact over_next_tick hi hp (.refl : Deeds False False e e) handler allowance hp

/-- The delay of a run that goes on, whose stop the host has asked for. -/
theorem failed_start_parting :
    Reached waitingDefinition parting
    ∧ startFlow 1 parting = .error (.unknownFlow 1) parting.unstopped
    ∧ ¬SameState parting parting.unstopped
    ∧ (parting.tick handler none).2.Over
    ∧ (parting.unstopped.tick handler (some 0)).2.instance? ⟨0, 0⟩ = parting.instance? ⟨0, 0⟩ := by
  have hb : build waitingDefinition {} .absent {}
      = .ok (built waitingDefinition {} .absent {}) := rfl
  have hreached : Reached waitingDefinition parting := reached_after hb _
  obtain ⟨hp, _, _⟩ := parting_spec
  have hfail : startFlow 1 parting = .error (.unknownFlow 1) parting.unstopped := by
    rcases startFlow_cases parting 1 with ⟨_, hstart⟩ | ⟨hlt, _⟩
    · exact hstart
    · exact absurd (hreached.definition ▸ hlt) (by decide)
  obtain ⟨_, _, hleft⟩ := failed_start hreached 1
  obtain ⟨_, _, hsame, _, hpending⟩ := hleft _ _ hfail
  obtain ⟨hover, hkept⟩ := hpending hp handler none
  refine ⟨hreached, hfail, fun h => ?_, hover, hkept _⟩
  have hstopped := (hsame.mp h).1
  simp [isStopped, hp] at hstopped

/-- **Not every start that fails leaves everything as it was**: a run that was never begun counts as
    going on. -/
theorem not_failed_start_unchanged :
    ¬ ∀ (d : Definition) (e₀ e' : Engine) (moves : List Move) (flow : Nat) (err : FlowError),
      build d {} .absent {} = .ok e₀ → startFlow flow (e₀.after moves) = .error err e' →
        e'.stopped = (e₀.after moves).stopped ∧ e'.stopRequested = (e₀.after moves).stopRequested
          ∧ e'.lastError = (e₀.after moves).lastError := by
  intro h
  have hstopped := (h waitingDefinition (built waitingDefinition {} .absent {}) _ [] 5
    (.unknownFlow 5) rfl rfl).1
  cases hstopped

end InstrumentFlow.Engine
