import InstrumentFlow.Proofs.Catching.Mailbox
import InstrumentFlow.Proofs.Lasting

/-!
# What becomes of caught errors

An error that comes to a catch component waits in its progress until the next step of the component,
which sends it out of output 1. There is room for one error: another one that comes before that step
takes its place, and the task that was queued for the first one finds nothing.

* `mailbox_stepCatch` -- the step of a catch component sends the error that waits;
* `Delivers` -- what a catch component sent and what it keeps, as its mailbox tells;
* `lasting_delivers` -- it holds between all steps;
* `errors_passed_on` -- what becomes of every error that comes to a catch component.
-/

namespace InstrumentFlow.Engine

/-! ## 1. The step of a catch component -/

section

variable {e : Engine} {i : InstanceId} {c : Nat}

/-- The step of a catch component, when its progress was taken away. -/
theorem stepCatch_eq (e : Engine) (i : InstanceId) (c : Nat) :
    stepCatch i c e = (match e.progress? i c with
      | some (.catchError message) => do
        checkIn i c true none
        propagate i c 1 (.string message)
        pulse i c
        return Step.completed
      | _ => return Step.completed : Act Step) (e.setProgress i c none) := rfl

theorem stepCatch_of_none (hp : e.progress? i c = none) :
    stepCatch i c e = .ok .completed (e.setProgress i c none) := by
  rw [stepCatch_eq, hp]
  rfl

theorem stepCatch_of_some {message : String} (hp : e.progress? i c = some (.catchError message)) :
    stepCatch i c e = (do
      propagate i c 1 (.string message)
      pulse i c
      return Step.completed : Act Step)
        ((e.setProgress i c none).settleProgress i c true none) := by
  rw [stepCatch_eq, hp]
  rfl

/-- An error that is sent out of output 1, and a pulse after it. -/
theorem upholds_passOn (hruns : (e.stopRequested || e.stopped) = false) (v : Value) :
    Upholds (fun s => s.mailbox i c = (e.mailbox i c).send v) (fun _ _ => True)
      (do
        propagate i c 1 v
        pulse i c
        return Step.completed : Act Step) e := by
  refine upholds_bind (R := fun _ _ => True) ((upholds_propagate_sent i c 1 v).mono
    (fun s hs => ?_) fun _ _ _ _ => trivial) fun _ s hs _ => ?_
  · rcases hs with ⟨hnot, _⟩ | hs
    · cases hruns.symm.trans hnot
    · exact hs.mailbox
  · refine upholds_bind (R := fun _ _ => True) ((upholds_propagate_sent i c 0 .null).mono
      (fun s' hs' => ?_) fun _ _ _ _ => trivial) fun _ _ h _ => upholds_pure h trivial
    rcases hs' with ⟨_, rfl⟩ | hs'
    · exact hs
    · exact (hs'.mailbox_of_ne Nat.zero_ne_one).trans hs

/-- **The step of a catch component sends the error that waits**, once, and nothing else out of
    output 1. -/
theorem mailbox_stepCatch {waiting : Option String}
    (hp : e.progress? i c = waiting.map .catchError) (hstop : e.stopRequested = false)
    (hstopped : e.stopped = false) (hw : (e.mailbox i c).atWork = true) :
    (stateAfter (stepCatch i c e)).mailbox i c
      = { e.mailbox i c with
          passedOn := (e.mailbox i c).passedOn ++ waiting.toList.map .string } := by
  cases waiting with
  | none =>
    rw [stepCatch_of_none hp]
    show e.mailbox i c = { e.mailbox i c with passedOn := (e.mailbox i c).passedOn ++ [] }
    rw [List.append_nil]
  | some message =>
    obtain ⟨hsettle, hruns⟩ : Idles e ((e.setProgress i c none).settleProgress i c true none)
        ∧ (((e.setProgress i c none).settleProgress i c true none).stopRequested
          || ((e.setProgress i c none).settleProgress i c true none).stopped)
          = (e.stopRequested || e.stopped) := by
      unfold settleProgress
      split
      · exact ⟨⟨[_], rfl, fun _ he => List.mem_singleton.mp he ▸ rfl⟩, rfl⟩
      · exact ⟨.silent rfl, rfl⟩
    rw [hstop, hstopped] at hruns
    rw [stepCatch_of_some hp, (upholds_passOn hruns _).after, hsettle.adds_posts.mailbox_eq]
    exact if_pos hw

/-- The end of a step that is not suspended leaves the errors as they are. -/
theorem mailbox_closing {outcome : EStateM.Result FlowError Engine Step}
    (hr : ∀ r s, outcome = .ok r s → r = .completed) :
    (closing i c outcome).mailbox i c = ((stateAfter outcome).mailbox i c).close := by
  have hend (s : Engine) : (s.endStep i c false).mailbox i c = (s.mailbox i c).close :=
    if_pos ⟨rfl, rfl⟩
  match outcome with
  | .ok .completed s => exact hend s
  | .ok .suspended s => exact nomatch hr .suspended s rfl
  | .error _ s =>
    exact (Idles.releaseProgress (s.endStep i c false) i c).adds_posts.mailbox_eq.trans (hend s)

end

/-! ## 2. What a catch component keeps -/

/-- **What a catch component sent and what it keeps**, between its steps: it sent all errors with
    which a step began, in that order and each of them once. Unless its instance has failed, it keeps
    the error that waits, and is queued for it, or the queue was full. -/
structure Delivers (e : Engine) (i : InstanceId) (c : Nat) : Prop where
  rests : (e.mailbox i c).atWork = false
  passedOn : (e.mailbox i c).passedOn = (e.mailbox i c).opened.map .string
  progress : ¬ e.HasFailed i → e.progress? i c = (e.mailbox i c).waiting.map .catchError
  queued : ¬ e.HasFailed i → (e.mailbox i c).waiting ≠ none →
    ⟨i, c, false⟩ ∈ e.queue.tasks ∨ .refused ⟨i, c, false⟩ ∈ e.journal

section

variable {closed : Prop} {e e' : Engine} {i : InstanceId} {c : Nat}

theorem delivers_fresh (h : Fresh i e) : e.Delivers i c := by
  obtain ⟨flow, _, earlier, hj⟩ := h.journal
  have hempty : e.mailbox i c = {} := by
    unfold mailbox
    rw [hj]
    exact if_pos rfl
  obtain ⟨s, hs, _, hnone⟩ := h.instance?
  refine ⟨by rw [hempty], by rw [hempty]; rfl, fun _ => ?_, fun _ hw => ?_⟩
  · rw [hempty, progress?, hs, Option.bind_some, hnone]
    rfl
  · rw [hempty] at hw
    exact absurd rfl hw

theorem Unmoved.delivers (h : Unmoved i c e e') (hd : e.Delivers i c) : e'.Delivers i c := by
  have hbox : e'.mailbox i c = e.mailbox i c := h.adds.mailbox hd.rests
  have hbefore (hf : ¬ e'.HasFailed i) : ¬ e.HasFailed i := fun hn => hf (h.staysFailed hn)
  refine ⟨hbox ▸ hd.rests, hbox ▸ hd.passedOn, fun hf => ?_, fun hf hw => ?_⟩
  · rw [hbox, h.progress?.resolve_left hf]
    exact hd.progress (hbefore hf)
  · rw [hbox] at hw
    rcases hd.queued (hbefore hf) hw with ht | hr
    · exact Or.inl ((h.queued false ht).resolve_right hf)
    · exact Or.inr (h.adds.mem hr)

/-- A component that keeps the error that waits is queued for it, or the queue is full. -/
theorem delivers_enqueued {message : String} (hrests : (e.mailbox i c).atWork = false)
    (hsent : (e.mailbox i c).passedOn = (e.mailbox i c).opened.map .string)
    (hwaits : (e.mailbox i c).waiting = some message)
    (hp : e.progress? i c = some (.catchError message)) (j : InstanceId) (k : Nat) (text : String) :
    (match e.enqueue ⟨i, c, false⟩ with
      | (true, e) => e
      | (false, e) => e.failFatally j k text).Delivers i c := by
  have hkeeps {e' : Engine} (hbox : e'.mailbox i c = e.mailbox i c)
      (hprogress : e'.progress? i c = e.progress? i c)
      (hq : ⟨i, c, false⟩ ∈ e'.queue.tasks ∨ .refused ⟨i, c, false⟩ ∈ e'.journal) :
      e'.Delivers i c :=
    ⟨hbox ▸ hrests, hbox ▸ hsent, fun _ => by rw [hprogress, hp, hbox, hwaits]; rfl, fun _ _ => hq⟩
  unfold enqueue
  cases hq : e.queue.push? ⟨i, c, false⟩ with
  | some queue =>
    have hpush : Adds (Event.posts i c) e ({ e with queue }.record (.pushed ⟨i, c, false⟩)) :=
      ⟨[_], rfl, fun _ he => List.mem_singleton.mp he ▸ rfl⟩
    refine hkeeps hpush.mailbox_eq rfl (Or.inl ?_)
    show _ ∈ queue.tasks
    rw [tasks_of_push hq]
    exact List.mem_append_right _ (List.mem_singleton.mpr rfl)
  | none =>
    have hrefuse := Idles.refused e ⟨i, c, false⟩ j k text
    refine hkeeps hrefuse.adds_posts.mailbox_eq ?_ (Or.inr ?_)
    · exact progress?_failFatally (e.record (.refused ⟨i, c, false⟩)) j k text i c
    · exact (Idles.failFatally (e.record (.refused ⟨i, c, false⟩)) j k text).mem List.mem_cons_self

/-- **An error that comes** waits, and takes the place of the one that waited. -/
theorem delivers_handOver (hi : Inv closed e) (hk : e.catches i c) (hd : e.Delivers i c)
    (j : InstanceId) (k : Nat) (message : String) :
    (e.handOver j k i c message).Delivers i c := by
  obtain ⟨record, hc, _⟩ := Option.map_eq_some_iff.mp hk
  have hhas : (e.record (.routed j k i c message)).hasComponent i c = true :=
    hasComponent_of_componentOf? hi hc
  have hbox : (((e.record (.routed j k i c message)).setProgress i c
      (some (.catchError message))).record (.progressChanged i c)).mailbox i c
        = (e.mailbox i c).receive message := if_pos ⟨rfl, rfl⟩
  have hprogress : (((e.record (.routed j k i c message)).setProgress i c
      (some (.catchError message))).record (.progressChanged i c)).progress? i c
        = some (.catchError message) := by
    have hset := progress?_setProgress (e.record (.routed j k i c message)) i i c c
      (some (.catchError message))
    rwa [if_pos ⟨rfl, rfl⟩, if_pos hhas] at hset
  unfold handOver allocateProgress
  dsimp only
  rw [if_pos hhas]
  exact delivers_enqueued (by rw [hbox]; exact hd.rests) (by rw [hbox]; exact hd.passedOn)
    (by rw [hbox]; rfl) hprogress j k _

theorem delivers_endStep (hd : e.Delivers i c) : (e.endStep i c false).Delivers i c := by
  have hbox : (e.endStep i c false).mailbox i c = (e.mailbox i c).close := if_pos ⟨rfl, rfl⟩
  refine ⟨by rw [hbox]; rfl, by rw [hbox]; exact hd.passedOn, fun hf => ?_, fun hf hw => ?_⟩
  · rw [hbox]
    exact hd.progress hf
  · rw [hbox] at hw
    exact (hd.queued hf hw).imp_right (List.mem_cons_of_mem _)

/-- **A step** sends the error that waits, and leaves none. -/
theorem delivers_stepped (handler : Handler) {t : Task} {record : Component}
    (ht : Due closed e t record) (hk : record.kind = .catchError)
    (hd : e.Delivers t.instanceId t.component) :
    (closing t.instanceId t.component (execute handler t.instanceId t.component record
      ((e.takeTask t).beginStep t))).Delivers t.instanceId t.component := by
  obtain ⟨ts, hq⟩ := ht.queue
  have hbegin : ((e.takeTask t).beginStep t).mailbox t.instanceId t.component
      = (e.mailbox t.instanceId t.component).openNext := if_pos ⟨rfl, rfl⟩
  have hexecute : execute handler t.instanceId t.component record
      = stepCatch t.instanceId t.component := by
    unfold execute
    rw [hk]
  have hsends := mailbox_stepCatch (e := (e.takeTask t).beginStep t) (hd.progress ht.not_hasFailed)
    ht.proceeds (ht.steady.proceeds hq) (by rw [hbegin]; rfl)
  have hvacant : Upholds (Vacant closed nobody ((e.takeTask t).beginStep t) t.instanceId t.component)
      (fun r _ => r = .completed) (stepCatch t.instanceId t.component)
      ((e.takeTask t).beginStep t) := upholds_stepCatch ht.inv .refl rfl
  have hnone : (closing t.instanceId t.component (stepCatch t.instanceId t.component
      ((e.takeTask t).beginStep t))).progress? t.instanceId t.component = none := by
    cases he : stepCatch t.instanceId t.component ((e.takeTask t).beginStep t) with
    | ok r s =>
      obtain ⟨hv, rfl⟩ := hvacant.of_ok he
      exact hv.empty
    | error err s => exact progress?_releaseProgress _ _ _
  have hbox : (closing t.instanceId t.component (stepCatch t.instanceId t.component
      ((e.takeTask t).beginStep t))).mailbox t.instanceId t.component = _ :=
    mailbox_closing fun r s he => (hvacant.of_ok he).2
  rw [hsends, hbegin] at hbox
  rw [hexecute]
  refine ⟨by rw [hbox]; rfl, ?_, fun _ => ?_, fun _ hw => ?_⟩
  · rw [hbox]
    show _ ++ _ = List.map _ (_ ++ _)
    rw [List.map_append, ← hd.passedOn]
    rfl
  · rw [hnone, hbox]
    rfl
  · rw [hbox] at hw
    exact absurd rfl hw

theorem lasting_delivers : Lasting closed fun e i c => e.catches i c → e.Delivers i c where
  fresh hf _ := delivers_fresh hf
  unmoved hu hd hk := hu.delivers (hd (hu.kindOf?.symm.trans hk))
  handed hi hk hd j k message _ := delivers_handOver hi hk (hd hk) j k message
  begins {e t record} ht hk _ hcatches := by
    rw [Option.some.inj (ht.kindOf?.symm.trans hcatches)] at hk
    cases hk
  ends hd hk := delivers_endStep (hd hk)
  stepped {e t record} handler ht hk hd hcatches := by
    have hkind : e.kindOf? t.instanceId t.component = some .catchError :=
      (kindOf?_calm (ht.calm handler hk) _ _).symm.trans hcatches
    exact delivers_stepped handler ht (Option.some.inj (ht.kindOf?.symm.trans hkind)) (hd hkind)

end

/-! ## 3. Every run -/

/-- **What becomes of the errors that come to a catch component.** In every run of flows without
    components of the host, where the host keeps no progress either, every error that came waits, or a
    step began with it, or it was replaced by another one that came before the next step began. Those
    with which a step began were sent out of output 1, each of them once and in the order in which they
    came. Unless the instance has failed, the component keeps the error that waits. If the queue was
    never full, none waits when the component has no task; then all errors were sent, in order, exactly
    where none was replaced. -/
theorem errors_passed_on {d : Definition} {config : Config} {dispatcher : Dispatcher} {host : Host}
    {e₀ : Engine} (hb : build d config dispatcher host = .ok e₀) (hh : d.Hostless)
    (moves : List Move) (hk : ∀ m ∈ moves, m.KeepsNothing) (count : Nat) (allowance : Option Nat)
    (report : TickReport) {e : Engine}
    (he : e = (runTasks handler count allowance report (e₀.after moves)).2) {i : InstanceId}
    {c : Nat} (hc : e.kindOf? i c = some .catchError) :
    (e.mailbox i c).Accounted
    ∧ (e.mailbox i c).passedOn = (e.mailbox i c).opened.map .string
    ∧ (¬ e.HasFailed i → e.progress? i c = (e.mailbox i c).waiting.map .catchError)
    ∧ (¬ e.HasFailed i → .refused ⟨i, c, false⟩ ∉ e.journal → ⟨i, c, false⟩ ∉ e.queue.tasks →
      (e.mailbox i c).waiting = none
      ∧ ((e.mailbox i c).passedOn = (e.mailbox i c).received.map .string
        ↔ (e.mailbox i c).replaced = [])) := by
  have hall : HoldsBut none (fun e i c => e.catches i c → e.Delivers i c) e :=
    he ▸ lasting_delivers.between hb hh moves hk count allowance report
  have hlive : e.instance? i ≠ none := by
    intro hn
    rw [kindOf?, componentOf?, hn] at hc
    cases hc
  have hd : e.Delivers i c := hall i c (Option.some_ne_none (i, c)).symm hlive hc
  have haccount := accounted_mailbox e i c
  refine ⟨haccount, hd.passedOn, hd.progress, fun hf hr hq => ?_⟩
  have hnone : (e.mailbox i c).waiting = none := by
    by_contra hw
    exact (hd.queued hf hw).elim hq hr
  refine ⟨hnone, ?_⟩
  rw [haccount.replaced_eq_nil_iff, hd.passedOn, hnone, Option.toList_none, List.append_nil]
  refine ⟨fun hsame => ?_, fun hsame => by rw [hsame]⟩
  exact (List.map_injective_iff.mpr (fun _ _ h => Value.string.inj h) hsame).symm

/-- A flow in which `n` components fail as soon as it begins, and in which the errors are logged. -/
def catchingDefinition (n : Nat) : Definition :=
  { flows :=
      [{ name := "main", inputFlags := [0]
         components :=
          { kind := .catchError
            outputs := [{ isSequence := true }, { connections := [⟨1, 0, false⟩] }] } ::
          { kind := .log, inputs := [0], properties := [{ instructions := [0, 32, 0, 224] }] } ::
          List.replicate n { kind := .log } }] }

/-- The flow is started, everybody fails in the first tick, and in the second one all tasks of the
    catch component have their turn. -/
def caughtMoves : List Move := [.order ⟨.startFlow 0, none⟩, .tick none, .tick none]

def caught (n : Nat) : Engine := (built (catchingDefinition n) {} .absent {}).after caughtMoves

theorem keepsNothing_caughtMoves : ∀ m ∈ caughtMoves, m.KeepsNothing := by
  simp [caughtMoves, Move.KeepsNothing, Command.KeepsNothing]

/-- One error comes and is not replaced. Of two errors one is sent. -/
theorem caught_spec :
    ((catchingDefinition 1).Hostless ∧ (catchingDefinition 2).Hostless)
    ∧ ((caught 1).kindOf? ⟨0, 0⟩ 0 = some .catchError ∧ ¬ (caught 1).HasFailed ⟨0, 0⟩
      ∧ ((caught 1).journal.all fun event => match event with
        | .refused _ => false
        | _ => true) = true
      ∧ ⟨⟨0, 0⟩, 0, false⟩ ∉ (caught 1).queue.tasks
      ∧ ((caught 1).mailbox ⟨0, 0⟩ 0).received.length = 1
      ∧ ((caught 1).mailbox ⟨0, 0⟩ 0).replaced.isEmpty = true)
    ∧ (caught 2).kindOf? ⟨0, 0⟩ 0 = some .catchError ∧ ¬ (caught 2).HasFailed ⟨0, 0⟩
    ∧ (caught 2).isStopped = false
    ∧ (∀ t ∈ (caught 2).queue.tasks, t.instanceId = ⟨0, 0⟩ → t.component ≠ 0)
    ∧ ((caught 2).mailbox ⟨0, 0⟩ 0).received.length = 2
    ∧ ((caught 2).mailbox ⟨0, 0⟩ 0).passedOn.length = 1 := by
  decide +kernel

/-- Where one component fails, its error is sent. -/
theorem errors_passed_on_one :
    build (catchingDefinition 1) {} .absent {} = .ok (built (catchingDefinition 1) {} .absent {})
    ∧ (catchingDefinition 1).Hostless ∧ (∀ m ∈ caughtMoves, m.KeepsNothing)
    ∧ ∃ e, e = (runTasks handler 0 none {} (caught 1)).2
        ∧ e.kindOf? ⟨0, 0⟩ 0 = some .catchError ∧ ¬ e.HasFailed ⟨0, 0⟩
        ∧ .refused ⟨⟨0, 0⟩, 0, false⟩ ∉ e.journal ∧ ⟨⟨0, 0⟩, 0, false⟩ ∉ e.queue.tasks
        ∧ (e.mailbox ⟨0, 0⟩ 0).received.length = 1
        ∧ (e.mailbox ⟨0, 0⟩ 0).passedOn = (e.mailbox ⟨0, 0⟩ 0).received.map .string := by
  have hb : build (catchingDefinition 1) {} .absent {}
      = .ok (built (catchingDefinition 1) {} .absent {}) := rfl
  have hzero : caught 1 = (runTasks handler 0 none {} (caught 1)).2 := by rw [runTasks]
  obtain ⟨⟨hh, _⟩, ⟨hkind, hsound, hnone, hqueue, hone, hkept⟩, _⟩ := caught_spec
  have hrefused : .refused ⟨⟨0, 0⟩, 0, false⟩ ∉ (caught 1).journal := fun hmem =>
    Bool.false_ne_true (List.all_eq_true.mp hnone _ hmem)
  obtain ⟨_, _, _, hall⟩ := errors_passed_on hb hh caughtMoves keepsNothing_caughtMoves 0 none {}
    hzero hkind
  obtain ⟨_, hiff⟩ := hall hsound hrefused hqueue
  exact ⟨hb, hh, keepsNothing_caughtMoves, caught 1, hzero, hkind, hsound, hrefused, hqueue, hone,
    hiff.mpr (List.isEmpty_iff.mp hkept)⟩

/-- Not every error that came is sent when all tasks of the catch component have had their turn. -/
theorem not_all_passed_on :
    ¬ ∀ (d : Definition) (e₀ e : Engine) (moves : List Move) (i : InstanceId) (c : Nat),
      build d {} .absent {} = .ok e₀ → d.Hostless → (∀ m ∈ moves, m.KeepsNothing) →
      e = e₀.after moves → e.isStopped = false → e.kindOf? i c = some .catchError →
      ¬ e.HasFailed i → (∀ t ∈ e.queue.tasks, t.instanceId = i → t.component ≠ c) →
      (e.mailbox i c).passedOn = (e.mailbox i c).received.map .string := by
  intro h
  have hb : build (catchingDefinition 2) {} .absent {}
      = .ok (built (catchingDefinition 2) {} .absent {}) := rfl
  obtain ⟨⟨_, hh⟩, _, hkind, hsound, hruns, hqueue, hreceived, hpassed⟩ := caught_spec
  have hall := h (catchingDefinition 2) _ (caught 2) caughtMoves ⟨0, 0⟩ 0 hb hh
    keepsNothing_caughtMoves rfl hruns hkind hsound hqueue
  rw [hall, List.length_map, hreceived] at hpassed
  cases hpassed

end InstrumentFlow.Engine
