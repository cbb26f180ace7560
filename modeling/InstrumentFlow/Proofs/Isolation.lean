import InstrumentFlow.Bytecode.Assembler
import InstrumentFlow.Proofs.Isolation.Activities
import InstrumentFlow.Proofs.Storage.Runs

/-!
# Isolation of instances

A step of a component works on the slots of its own instance. Of other instances it changes inputs
of the caller only, and of these only the ones to which connections of the calling component lead.
A write target from the host is the one way to reach further.

* `bypasses_stepSetVariable`, `bypasses_stepLoop`, `bypasses_stepScpi`, ... -- steps that change no
  other instance;
* `Engine.SentBack` -- the inputs of its caller into which an instance can send;
* `bypasses_stepFinish`, `bypasses_stepOutput`, `bypasses_call` -- calls and their ends;
* `bypasses_execute` -- the step of any component;
* `respects_runTask`, `respects_turn` -- a task, with everything that follows from its outcome;
* `Isolates`, `isolates_turn` -- two instances in the turn of a task;
* `instances_isolated` -- **every task of every run**;
* `local_of_another_written` -- what a host can do that hands in a write target.
-/

namespace InstrumentFlow

namespace Engine

section

variable {T : Terms} {i j : InstanceId} {n : Nat} {e : Engine}

/-! ## 1. Steps within one instance -/

/-- A pulse that is the last of a step. -/
theorem bypasses_lastPulse (hj : j ≠ i) (index : Nat) :
    Bypasses T j n (do pulse i index; return Step.completed) e :=
  .bind (bypasses_pulse_ne hj index) fun _ _ _ => .pure _

theorem bypasses_stepEvaluate (hj : j ≠ i) (index : Nat) :
    Bypasses T j n (stepEvaluate i index) e := by
  unfold stepEvaluate
  refine .bind (bypasses_evaluateProperty i index 0 [] false) fun v _ _ => ?_
  exact .bind (bypasses_propagate_ne hj index 1 v) fun _ _ _ => bypasses_lastPulse hj index

theorem bypasses_stepIsTrue (hj : j ≠ i) (index : Nat) :
    Bypasses T j n (stepIsTrue i index) e := by
  unfold stepIsTrue
  refine .bind (bypasses_evaluateProperty i index 0 [] false) fun v _ _ => .get ?_
  exact .bind (bypasses_propagate_ne hj index _ _) fun _ _ _ => .pure _

theorem bypasses_stepLog (hj : j ≠ i) (index : Nat) : Bypasses T j n (stepLog i index) e := by
  unfold stepLog
  refine .bind (bypasses_evaluateProperty i index 0 [] false) fun v _ _ => ?_
  refine .bind (bypasses_textOf v) fun text _ _ => ?_
  exact bypasses_modify_bind (.record _ rfl) (bypasses_lastPulse hj index)

theorem bypasses_stepError (i : InstanceId) (index : Nat) :
    Bypasses T j n (stepError i index) e := by
  unfold stepError
  refine .bind (bypasses_evaluateProperty i index 0 [] false) fun v _ _ => ?_
  exact .bind (bypasses_textOf v) fun text _ _ => .throw _

theorem bypasses_stepCatch (hj : j ≠ i) (index : Nat) : Bypasses T j n (stepCatch i index) e := by
  unfold stepCatch
  refine .bind (bypasses_checkOut i index) fun p _ _ => ?_
  split
  · refine .bind (bypasses_checkIn i index true none) fun _ _ _ => ?_
    exact .bind (bypasses_propagate_ne hj index 1 _) fun _ _ _ => bypasses_lastPulse hj index
  · exact .pure _

theorem bypasses_stepDelay (hj : j ≠ i) (index : Nat) : Bypasses T j n (stepDelay i index) e := by
  have hwait {e : Engine} (hadProgress : Bool) (wakeAt : Nat) :
      Bypasses T j n
        (do checkIn i index hadProgress (some (.delay wakeAt)); return Step.suspended) e :=
    .bind (bypasses_checkIn i index hadProgress _) fun _ _ _ => .pure _
  unfold stepDelay
  refine .bind (bypasses_checkOut i index) fun p _ _ => ?_
  split
  · refine .get ?_
    split
    · exact hwait true _
    · exact .bind (bypasses_checkIn i index true none) fun _ _ _ => bypasses_lastPulse hj index
  · unfold beginDelay
    refine .bind (bypasses_evaluateProperty i index 0 [] false) fun v _ _ => .get ?_
    split
    · exact hwait false _
    · exact .set_bind (.beside rfl rfl) (.pure _)

section

variable (hs : e.Stock T) (hj : j ≠ i)
include hs hj

theorem bypasses_assignPair (index pair : Nat) : Bypasses T j n (assignPair i index pair) e := by
  unfold assignPair
  refine .bind (bypasses_evaluateProperty i index _ [] true) fun d e₁ he => ?_
  have hfinds := ((handles_evaluateProperty hs i index _ [] true).of_ok he).2.2
  refine .bind (bypasses_evaluateProperty i index _ [] false) fun v _ _ => ?_
  exact bypasses_assign hj index hfinds.stays v

theorem bypasses_assignPairs (index : Nat) (pairs : List Nat) :
    Bypasses T j n (assignPairs i index pairs) e := by
  induction pairs generalizing e with
  | nil => exact .pure _
  | cons pair pairs ih =>
    refine .bind (bypasses_assignPair hs hj index pair) fun _ e₁ he => ?_
    exact ih (((handles_assignPair hs i index pair).of_ok he).1.stock hs)

theorem bypasses_stepSetVariable (index : Nat) (c : Component) :
    Bypasses T j n (stepSetVariable i index c) e := by
  unfold stepSetVariable
  exact .bind (bypasses_assignPairs hs hj index _) fun _ _ _ => bypasses_lastPulse hj index

theorem bypasses_beginLoop (index : Nat) : Bypasses T j n (beginLoop i index) e := by
  unfold beginLoop
  refine .bind (bypasses_evaluateProperty i index 0 [] true) fun d e₁ he => ?_
  have hfinds := ((handles_evaluateProperty hs i index 0 [] true).of_ok he).2.2
  refine .bind (bypasses_evaluateProperty i index 1 [] false) fun first _ _ => ?_
  refine .bind (bypasses_evaluateProperty i index 2 [] false) fun limit _ _ => ?_
  refine .bind (bypasses_evaluateProperty i index 3 [] false) fun step _ _ => ?_
  refine .bind (bypasses_assign hj index hfinds.stays first) fun _ _ _ => ?_
  exact .bind (bypasses_checkIn i index false _) fun _ _ _ => bypasses_lastPulse hj index

omit hs in
theorem bypasses_advanceLoop (index : Nat) {l : LoopProgress}
    (hl : T.noPlaces → l.destination.Stays i) : Bypasses T j n (advanceLoop i index l) e := by
  unfold advanceLoop
  refine .bind (bypasses_resolved .readValue l.destination) fun current _ _ => ?_
  split
  · exact .throw _
  split
  · refine .bind (bypasses_checkIn i index true none) fun _ _ _ => ?_
    exact .bind (bypasses_propagate_ne hj index 1 _) fun _ _ _ => .pure _
  · refine .bind (bypasses_assign hj index hl _) fun _ _ _ => ?_
    exact .bind (bypasses_checkIn i index true _) fun _ _ _ => bypasses_lastPulse hj index

/-- **A loop** counts in a variable of its own instance, however long ago that was found. -/
theorem bypasses_stepLoop (index : Nat) : Bypasses T j n (stepLoop i index) e := by
  unfold stepLoop
  refine .bind (bypasses_checkOut i index) fun p e₁ he => ?_
  obtain ⟨hdeposits, hloops, -⟩ := (handles_checkOut hs i index).of_ok he
  split
  · next l => exact bypasses_advanceLoop hj index fun hn =>
      (Expression.points_of_noPlaces hn (hloops l rfl).points).stays
  · exact bypasses_beginLoop (hdeposits.stock hs) hj index

theorem bypasses_stepScpi (index : Nat) (c : Component) :
    Bypasses T j n (stepScpi i index c) e := by
  unfold stepScpi
  refine .bind (bypasses_checkOut i index) fun p e₁ he => .get ?_
  have hs₁ : e₁.Stock T := ((handles_checkOut hs i index).of_ok he).1.stock hs
  have hparts : Bypasses T j n (runParts i index (e₁.flowIndex i) c.payload
    (c.payload.length + 1) (scpiProgress p)) e₁ := bypasses_runParts hs₁ hj index _ _ _ _
  have hcaught : Bypasses T j n (tryCatch (runParts i index (e₁.flowIndex i) c.payload
      (c.payload.length + 1) (scpiProgress p)) fun err => do
        checkIn i index p.isSome none
        throw err) e₁ :=
    upholds_tryCatch hparts fun err e₂ h =>
      Bypasses.after (.bind (bypasses_checkIn i index p.isSome none) fun _ _ _ => .throw err) h
  refine .bind hcaught fun outcome _ _ => ?_
  split
  · exact .bind (bypasses_checkIn i index _ _) fun _ _ _ => .pure _
  · exact .bind (bypasses_checkIn i index _ none) fun _ _ _ => bypasses_lastPulse hj index

end

/-! ## 2. Calls and their ends -/

/-- **The inputs into which an instance can send**: those of its caller to which a connection of
    the calling component leads. -/
def SentBack (e : Engine) (i j : InstanceId) (n : Nat) : Prop :=
  ∃ component, (e.instance? i).bind Instance.parent = some (j, component)
    ∧ e.Wired j component n

/-- What an instance sends out of its calling component. -/
theorem bypasses_propagate_caller {parent : InstanceId} {component : Nat}
    (hp : (e.instance? i).bind Instance.parent = some (parent, component))
    (hb : ¬ e.SentBack i j n) (hx : e.isExecuting i = true) (hj : j ≠ i) (output : Nat)
    (v : Value) : Bypasses T j n (propagate parent component output v) e := by
  refine bypasses_propagate (fun hrunning => ?_) (fun h hw => hb ?_) output v
  · unfold isExecuting at hx
    rw [hrunning] at hx
    exact fun h => hj (h.trans (eq_of_beq hx))
  · subst h
    exact ⟨component, hp, hw⟩

theorem bypasses_stepOutput (hb : ¬ e.SentBack i j n) (hx : e.isExecuting i = true) (hj : j ≠ i)
    (index : Nat) (c : Component) : Bypasses T j n (stepOutput i index c) e := by
  unfold stepOutput
  refine .get ?_
  dsimp only
  split
  · exact .throw _
  · exact .throw _
  · exact .throw _
  next hp => exact .bind (bypasses_propagate_caller hp hb hx hj _ _) fun _ _ _ => .pure _

theorem bypasses_stepFinish (hb : ¬ e.SentBack i j n) (hx : e.isExecuting i = true)
    (hj : j ≠ i) : Bypasses T j n (stepFinish i) e := by
  unfold stepFinish
  refine .get ?_
  split
  · exact .throw _
  next s hi =>
  split
  · next parent component _ hp =>
    have hcaller : (e.instance? i).bind Instance.parent = some (parent, component) := by
      rw [hi]
      exact hp
    refine bypasses_modify_bind (.record _ rfl) ?_
    have hpulse :
        Bypasses T j n (pulse parent component) (e.record (.returned i parent component)) :=
      bypasses_propagate_caller (e := e.record _) hcaller hb hx hj _ _
    refine .bind hpulse fun _ e₁ _ => ?_
    exact bypasses_modify_bind (.of_quiet (quiet_endAsync e₁ (some i) parent component)) (.pure _)
  · have hstop : Respects T j n e { e.record .stopAsked with stopRequested := true } :=
      (Respects.record e rfl).trans (.beside rfl rfl)
    exact bypasses_modify_bind hstop (.pure _)

/-- **A call** leaves alone whoever is there already. -/
theorem bypasses_call (hi : Inv False e) (hl : e.instance? j ≠ none) (hj : j ≠ i)
    (component flow : Nat) : Bypasses T j n (call i component flow) e := by
  unfold call
  have hcreate : Bypasses T j n (create flow (some (i, component)) true) e := by
    rcases create_cases e flow (some (i, component)) true with ⟨err, he⟩ | ⟨f, hf, hp, he⟩
    · unfold Bypasses Upholds
      rw [he]
      exact .refl e
    · unfold Bypasses Upholds
      rw [he]
      exact ⟨(Respects.begun hi.sound hp rfl hl).trans
        (.of_quiet (quiet_pingAll _ _ _)), trivial⟩
  refine .bind hcreate fun child e₁ _ => ?_
  refine bypasses_modify_bind
    (.of_quiet (quiet_startAsync e₁ (some child) i component)) (.get ?_)
  split
  · refine bypasses_modify_bind (.of_quiet (quiet_free child _)) ?_
    refine bypasses_modify_bind (.record _ rfl) ?_
    exact .bind (bypasses_pulse_ne hj component) fun _ _ _ => .pure _
  · exact .pure _

/-! ## 3. Any step -/

/-- **The step of any component of the flows** changes the slots of its own instance, and inputs of
    the caller. -/
theorem bypasses_execute (handler : Handler) (hi : Inv False e)
    (hs : e.Stock T) {index : Nat} {c : Component} (hx : e.isExecuting i = true)
    (hh : c.kind.isBuiltIn = true) (hl : e.instance? j ≠ none) (hj : j ≠ i)
    (hb : ¬ e.SentBack i j n) : Bypasses T j n (execute handler i index c) e := by
  unfold execute
  cases hc : c.kind with
  | start | noop => exact bypasses_lastPulse hj index
  | finish => exact bypasses_stepFinish hb hx hj
  | output => exact bypasses_stepOutput hb hx hj index c
  | callAction =>
    show Bypasses T j n (stepCall i index c) e
    unfold stepCall
    split
    · exact .throw _
    · exact .bind (bypasses_call hi hl hj index _) fun _ _ _ => .pure _
  | evalExpr | constant => exact bypasses_stepEvaluate hj index
  | setVariable => exact bypasses_stepSetVariable hs hj index c
  | isTrue => exact bypasses_stepIsTrue hj index
  | log => exact bypasses_stepLog hj index
  | error => exact bypasses_stepError i index
  | catchError => exact bypasses_stepCatch hj index
  | delay => exact bypasses_stepDelay hj index
  | loop => exact bypasses_stepLoop hs hj index
  | scpi => exact bypasses_stepScpi hs hj index c
  | host code =>
    rw [hc] at hh
    cases hh

/-! ## 4. Tasks -/

theorem respects_tidy (hj : j ≠ i) (component : Nat) : Respects T j n e (e.tidy i component) := by
  have hreset : Respects T j n e (e.resetSequenceInputs i component) := .resetSequenceInputs e hj _
  have hsettled : Respects T j n e
      ((e.resetSequenceInputs i component).record (.settled i component)) :=
    hreset.trans (.record _ rfl)
  exact hsettled.trans (.of_quiet (quiet_collect _ i))

theorem respects_settleOutcome (hj : j ≠ i) (component : Nat)
    (outcome : EStateM.Result FlowError Engine Step) :
    Respects T j n (stateAfter outcome) (settleOutcome i component outcome) := by
  match outcome with
  | .ok .completed e => exact .of_quiet (quiet_endStep e i component false)
  | .ok .suspended e =>
    exact .of_quiet
      ((quiet_endStep e i component true).trans (quiet_continueLater _ i component))
  | .error err e =>
    have hrelease : Respects T j n e ((e.endStep i component false).releaseProgress i component) :=
      .of_quiet
        ((quiet_endStep e i component false).trans (quiet_releaseProgress _ i component))
    exact hrelease.trans (.raiseError hj component err.message)

/-- **A task** changes the slots of its own instance, and inputs of the caller. -/
theorem respects_runTask (handler : Handler) (hi : Inv False e)
    (hh : e.definition.Hostless) (hs : e.Stock T) (t : Task) (hl : e.instance? j ≠ none)
    (hj : j ≠ t.instanceId) (hb : ¬ e.SentBack t.instanceId j n) :
    Respects T j n e (e.runTask handler t) := by
  unfold runTask
  split
  · exact .refl e
  next s hlive =>
  split
  · exact .of_quiet (quiet_failFatally e _ _ _)
  next c hc =>
  split
  · have hrelease : Respects T j n e (e.releaseProgress t.instanceId t.component) :=
      .of_quiet (quiet_releaseProgress e _ _)
    exact hrelease.trans (respects_tidy hj t.component)
  · have hcomponent : e.componentOf? t.instanceId t.component = some c := by
      rw [componentOf?_of_live hlive, hc]
      rfl
    have hquiet : Quiet False e (e.beginStep t) := quiet_beginStep e t
    have hbegin : Respects T j n e (e.beginStep t) := .of_quiet hquiet
    have hstep : Bypasses T j n (execute handler t.instanceId t.component c) (e.beginStep t) :=
      bypasses_execute handler ((touches_beginStep hi t).inv hi) (hquiet.deposits.stock hs)
        (beq_self_eq_true t.instanceId) (only_componentOf? hh hcomponent) hl hj hb
    have hstepped := hbegin.trans (Upholds.after hstep)
    have hsettled := hstepped.trans (respects_settleOutcome hj t.component _)
    exact hsettled.trans (respects_tidy hj t.component)

/-- The turn of a task: the debugger lets it pass, it leaves the queue, and it is run. -/
theorem respects_turn (handler : Handler) (hi : Inv False e)
    (hh : e.definition.Hostless) (hs : e.Stock T) (t : Task) (hl : e.instance? j ≠ none)
    (hj : j ≠ t.instanceId) (hb : ¬ e.SentBack t.instanceId j n) :
    Respects T j n e (((e.debuggerBlocks t).2.takeTask t).runTask handler t) := by
  have hblock : Leaps False True False e (e.debuggerBlocks t).2 := leaps_debuggerBlocks hi .refl t
  have htaken : Quiet False e ((e.debuggerBlocks t).2.takeTask t) :=
    (quiet_debuggerBlocks e t).trans (quiet_takeTask _ t)
  refine (Respects.of_quiet htaken).trans (respects_runTask handler
    ((touches_takeTask t).inv (hblock.inv hi)) (htaken.definition ▸ hh) (htaken.deposits.stock hs)
    t ?_ hj ?_)
  all_goals rw [debuggerBlocks_snd]
  · exact hl
  · exact hb

/-- A connection leads to an input. -/
theorem Stock.wired_lt (hs : e.Stock T) {s : Instance} (hi : e.instance? i = some s)
    {component : Nat} (hw : e.Wired i component n) : n < s.inputCount := by
  obtain ⟨c, hc, out, hout, w, hmem, rfl⟩ := hw
  have hrecord : e.componentRecord s.flow component = .ok c := by
    unfold componentOf? at hc
    rw [hi] at hc
    exact componentRecord_eq_ok_iff.mpr hc
  obtain ⟨s', hi', hlt⟩ := hs.feeds_wire hi hrecord hout hmem
  rw [hi] at hi'
  cases hi'
  exact hlt

/-- **Two instances are isolated**: of the second one, which holds `s` before a step of the first
    one and `s'` after it,

    * the local variables hold what they held;
    * so do the inputs, unless it is the caller of the first one;
    * and of the caller only such inputs may hold something else to which a connection of the
      calling component leads.

    Nothing is said of the slots that are excepted. -/
structure Isolates (e : Engine) (i j : InstanceId) (excepted : Nat → Prop) (s s' : Instance) :
    Prop where
  locals : ∀ n, ¬ excepted (s.inputCount + n) → s'.local? n = s.local? n
  inputs : (∀ component, (e.instance? i).bind Instance.parent ≠ some (j, component)) →
    ∀ n, ¬ excepted n → s'.input? n = s.input? n
  caller : ∀ n, ¬ excepted n → s'.input? n ≠ s.input? n → e.SentBack i j n

theorem Isolates.mono {P Q : Nat → Prop} {s s' : Instance} (h : e.Isolates i j P s s')
    (hle : ∀ n, P n → Q n) : e.Isolates i j Q s s' where
  locals n hn := h.locals n (mt (hle _) hn)
  inputs hno n hn := h.inputs hno n (mt (hle n) hn)
  caller n hn := h.caller n (mt (hle n) hn)

/-- **The turn of a task** isolates its instance from all others, but for slots that are assigned
    for a host that may hand in places. -/
theorem isolates_turn (handler : Handler) (hi : Inv False e) (hh : e.definition.Hostless)
    (hs : e.Stock T) (t : Task) (hj : j ≠ t.instanceId) {s s' : Instance}
    (hlive : e.instance? j = some s)
    (hlive' : (((e.debuggerBlocks t).2.takeTask t).runTask handler t).instance? j = some s')
    {news : List Event}
    (hnews : (((e.debuggerBlocks t).2.takeTask t).runTask handler t).journal = news ++ e.journal) :
    e.Isolates t.instanceId j (fun n => ¬ T.noPlaces ∧ news.any (Event.assigns j n) = true)
      s s' := by
  have hsame (n : Nat) (hno : ¬ e.SentBack t.instanceId j n)
      (hx : ¬ (¬ T.noPlaces ∧ news.any (Event.assigns j n) = true)) : s.SameAt n s' :=
    (respects_turn handler hi hh hs t (Option.ne_none_iff_exists'.mpr ⟨s, hlive⟩) hj hno).sameAt
      hlive hlive' hnews hx
  refine ⟨fun n hx => ?_, fun hno n hx => ?_, fun n hx hne => ?_⟩
  · -- connections lead to inputs, and these lie before all local variables
    refine (hsame _ (fun ⟨component, _, hw⟩ => ?_) hx).local?
    have hlt := hs.wired_lt hlive hw
    omega
  · exact (hsame n (fun ⟨component, hp, _⟩ => hno component hp) hx).input?
  · exact Classical.byContradiction fun hno => hne (hsame n hno hx).input?

theorem journal_turn (handler : Handler) (hi : Inv False e) (hh : e.definition.Hostless)
    (t : Task) :
    e.journal <:+ (((e.debuggerBlocks t).2.takeTask t).runTask handler t).journal := by
  have hblock : Leaps False True False e (e.debuggerBlocks t).2 := leaps_debuggerBlocks hi .refl t
  have htaken : Inv False ((e.debuggerBlocks t).2.takeTask t) :=
    (touches_takeTask t).inv (hblock.inv hi)
  have hhost : ((e.debuggerBlocks t).2.takeTask t).definition.Hostless := by
    rw [debuggerBlocks_snd]
    exact hh
  have hrun := ((course_runTask htaken hhost handler t).changes htaken).journal
  refine List.IsSuffix.trans ?_ hrun
  rw [debuggerBlocks_snd]
  exact List.suffix_cons _ _

end

/-! ## 5. Every run -/

theorem keepsTo_lawless (moves : List Move) (e : Engine) : e.KeepsTo lawless moves := by
  induction moves generalizing e with
  | nil => trivial
  | cons m ms ih => exact ⟨Move.meets_of_free (fun _ => id) id _ fun _ _ _ _ => id, ih _⟩

/-- **Instances are isolated.** In every state between the steps of a run of flows without
    components of the host, let a task be run. Its instance is isolated from every other one that
    is there before and afterwards

    * at all slots, if neither the orders of the host nor its native variables hand in a write
      target that leads to storage;
    * else at all slots but those to which the step assigns by a write target that leads to just
      that slot. -/
theorem instances_isolated {d : Definition} {config : Config} {dispatcher : Dispatcher}
    {host : Host} {e₀ : Engine} (hb : build d config dispatcher host = .ok e₀) (hh : d.Hostless)
    (moves : List Move) (count : Nat) (allowance : Option Nat) (report : TickReport) {e : Engine}
    (he : e = (runTasks handler count allowance report (e₀.after moves)).2) (t : Task)
    {j : InstanceId} (hj : j ≠ t.instanceId) {s s' : Instance} (hs : e.instance? j = some s)
    {e' : Engine} (he' : e' = ((e.debuggerBlocks t).2.takeTask t).runTask handler t)
    (hs' : e'.instance? j = some s') :
    (host.Meets placeless → e₀.KeepsTo placeless moves →
      e.Isolates t.instanceId j (fun _ => False) s s')
    ∧ ∃ news, e'.journal = news ++ e.journal
      ∧ e.Isolates t.instanceId j (fun n => news.any (Event.assigns j n) = true) s s' := by
  have hdeposited {T : Terms} (hn : host.Meets T) (hm : e₀.KeepsTo T moves) :
      e.definition = e₀.definition ∧ e.Stock T := by
    obtain ⟨hs₀, hdeposits⟩ := deposits_between hb hh hn moves hm count allowance report
    rw [← he] at hdeposits
    exact ⟨hdeposits.definition, hdeposits.stock hs₀⟩
  have hi : Inv False e :=
    he ▸ (leaps_amid hb hh moves count allowance report).inv (inv_build hb False.elim)
  obtain ⟨hd, hfree⟩ : e.definition = e₀.definition ∧ e.Stock lawless :=
    hdeposited (Host.meets_of_free (fun _ => id) id host) (keepsTo_lawless moves e₀)
  have hhost : e.definition.Hostless := by
    rw [hd, (build_eq_ok_iff.mp hb).2]
    exact hh
  subst he'
  obtain ⟨news, hnews⟩ := journal_turn handler hi hhost t
  refine ⟨fun hn hm => ?_, news, hnews.symm, ?_⟩
  · have hstock : e.Stock placeless := (hdeposited hn hm).2
    exact (isolates_turn handler hi hhost hstock t hj hs hs' hnews.symm).mono
      fun n hx => hx.1 fun _ => id
  · exact (isolates_turn handler hi hhost hfree t hj hs hs' hnews.symm).mono fun n hx => hx.2

/-- A flow calls another one, which sends a number back into an input of the first. -/
def sendingBackDefinition : Definition :=
  { constants := [.undefined, .null, .int 7]
    flows :=
      [{ name := "main", inputFlags := [0], locals := [.int 5]
         components :=
          [{ kind := .callAction, payload := [1, 0]
             outputs := [{ isSequence := true }, { connections := [⟨1, 0, false⟩] }] },
           { kind := .noop, inputs := [0] }] },
       { name := "inner", inputFlags := [0]
         components :=
          [{ kind := .constant
             properties := [⟨(({} : Bytecode.Assembler).constant 2).finish⟩]
             outputs := [{ isSequence := true }, { connections := [⟨1, 0, false⟩] }] },
           { kind := .output, inputs := [0], payload := [1, 0] }] }] }

/-- The moves up to the step in which that happens. -/
def sendingBackMoves : List Move := [.order ⟨.startFlow 0, none⟩, .tick none, .tick none]

/-- The state before that step. -/
def sendingBack : Engine :=
  (runTasks handler 0 none {}
    ((built sendingBackDefinition {} .absent {}).after sendingBackMoves)).2

/-- The state after it. -/
def sentBack : Engine :=
  ((sendingBack.debuggerBlocks ⟨⟨1, 0⟩, 1, false⟩).2.takeTask ⟨⟨1, 0⟩, 1, false⟩).runTask handler
    ⟨⟨1, 0⟩, 1, false⟩

/-- The number comes into the input of the caller, and the local variable there stays. -/
theorem instances_isolated_sendingBack :
    build sendingBackDefinition {} .absent {} = .ok (built sendingBackDefinition {} .absent {})
    ∧ sendingBackDefinition.Hostless
    ∧ Host.Meets placeless {}
    ∧ (built sendingBackDefinition {} .absent {}).KeepsTo placeless sendingBackMoves
    ∧ sendingBack.queue.tasks = [⟨⟨1, 0⟩, 1, false⟩]
    ∧ (sendingBack.instance? ⟨0, 0⟩).bind (·.input? 0) = some .undefined
    ∧ (sentBack.instance? ⟨0, 0⟩).bind (·.input? 0) = some (.int 7)
    ∧ (sentBack.instance? ⟨0, 0⟩).bind (·.local? 0) = some (.int 5)
    ∧ sendingBack.SentBack ⟨1, 0⟩ ⟨0, 0⟩ 0 := by
  have hb : build sendingBackDefinition {} .absent {}
      = .ok (built sendingBackDefinition {} .absent {}) := rfl
  have hh : sendingBackDefinition.Hostless := by decide +kernel
  have hn : Host.Meets placeless {} := Host.meets_empty placeless
  have hm : (built sendingBackDefinition {} .absent {}).KeepsTo placeless sendingBackMoves :=
    ⟨trivial, trivial, trivial, trivial⟩
  have htasks : sendingBack.queue.tasks = [⟨⟨1, 0⟩, 1, false⟩] := by decide +kernel
  have hinput : (sendingBack.instance? ⟨0, 0⟩).bind (·.input? 0) = some .undefined := by
    decide +kernel
  have hlocal : (sendingBack.instance? ⟨0, 0⟩).bind (·.local? 0) = some (.int 5) := by
    decide +kernel
  have hinput' : (sentBack.instance? ⟨0, 0⟩).bind (·.input? 0) = some (.int 7) := by
    decide +kernel
  obtain ⟨s, hs, hundefined⟩ := Option.bind_eq_some_iff.mp hinput
  obtain ⟨s', hs', hseven⟩ := Option.bind_eq_some_iff.mp hinput'
  have hisolated : sendingBack.Isolates ⟨1, 0⟩ ⟨0, 0⟩ (fun _ => False) s s' :=
    (instances_isolated hb hh sendingBackMoves 0 none {} rfl ⟨⟨1, 0⟩, 1, false⟩ (by decide) hs
      (rfl : sentBack = _) hs').1 hn hm
  refine ⟨hb, hh, hn, hm, htasks, hinput, hinput', ?_, hisolated.caller 0 id ?_⟩
  · rw [hs] at hlocal
    rw [hs']
    exact (hisolated.locals 0 id).trans hlocal
  · rw [hundefined, hseven]
    nofun

/-- A flow assigns a number to whatever its input names. -/
def leakingDefinition : Definition :=
  { constants := [.undefined, .null, .int 7]
    flows :=
      [{ name := "main", inputFlags := [0], locals := [.int 5]
         components :=
          [{ kind := .setVariable, inputs := [0]
             properties :=
              [⟨(({} : Bytecode.Assembler).input 0).finish⟩,
               ⟨(({} : Bytecode.Assembler).constant 2).finish⟩] }] }] }

/-- The flow is started twice, and the host writes into the input of the second instance the name of
    the local variable of the first. -/
def leakingMoves : List Move :=
  [.order ⟨.startFlow 0, none⟩, .order ⟨.startFlow 0, none⟩,
   .order ⟨.setInput ⟨1, 0⟩ 0 (.plain (.slot ⟨0, 0⟩ 1)), none⟩]

/-- **A host that hands in a write target breaks the isolation**: it is not so that a task leaves
    the local variables of all other instances alone. -/
theorem local_of_another_written :
    ¬ ∀ (d : Definition) (e₀ : Engine) (moves : List Move) (t : Task) (j : InstanceId)
      (s s' : Instance), build d {} .absent {} = .ok e₀ → d.Hostless →
      (e₀.after moves).queue.tasks.head? = some t → j ≠ t.instanceId →
      (e₀.after moves).instance? j = some s →
      ((((e₀.after moves).debuggerBlocks t).2.takeTask t).runTask handler t).instance? j
        = some s' →
      ∀ n, s'.local? n = s.local? n := by
  intro hall
  let e : Engine := (built leakingDefinition {} .absent {}).after leakingMoves
  let e' : Engine := ((e.debuggerBlocks ⟨⟨1, 0⟩, 0, false⟩).2.takeTask ⟨⟨1, 0⟩, 0, false⟩).runTask
    handler ⟨⟨1, 0⟩, 0, false⟩
  have hh : leakingDefinition.Hostless := by decide +kernel
  have htask : e.queue.tasks.head? = some ⟨⟨1, 0⟩, 0, false⟩ := by decide +kernel
  have hbefore : (e.instance? ⟨0, 0⟩).bind (·.local? 0) = some (.int 5) := by decide +kernel
  have hafter : (e'.instance? ⟨0, 0⟩).bind (·.local? 0) = some (.int 7) := by decide +kernel
  obtain ⟨s, hs, hfive⟩ := Option.bind_eq_some_iff.mp hbefore
  obtain ⟨s', hs', hseven⟩ := Option.bind_eq_some_iff.mp hafter
  have hsame : s'.local? 0 = s.local? 0 :=
    hall leakingDefinition _ leakingMoves _ ⟨0, 0⟩ s s' rfl hh htask (by decide) hs hs' 0
  rw [hfive, hseven] at hsame
  cases hsame

end Engine

end InstrumentFlow
