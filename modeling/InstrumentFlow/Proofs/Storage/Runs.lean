import InstrumentFlow.Proofs.Storage.Steps

/-!
# Runs as deposits

Tasks, ticks and whatever the host asks for under its terms are rows of deposits, in flows without
components of the host.

* `deposits_runTask`, `deposits_runTasks`, `deposits_tick`, `deposits_runUntilIdle` -- tasks and
  ticks;
* `Command.Meets`, `Move.Meets`, `KeepsTo` -- the host keeps to its terms;
* `deposits_placeGiven`, `deposits_perform`, `deposits_move` -- commands and moves;
* `deposits_after`, `deposits_between` -- runs, up to any state between two steps;
* `stock_built` -- the stock of a program that was built.
-/

namespace InstrumentFlow

namespace Engine

section

variable {T : Terms} {e : Engine}

/-! ## 1. Tasks -/

theorem deposits_tidy (hs : e.Stock T) (i : InstanceId) (component : Nat) :
    Deposits T False e (e.tidy i component) := by
  have hreset : Deposits T True e (e.resetSequenceInputs i component) :=
    deposits_resetSequenceInputs hs i component
  have hsettled : Deposits T False e
      ((e.resetSequenceInputs i component).record (.settled i component)) :=
    hreset.weaken.trans (deposits_record rfl)
  exact hsettled.trans (quiet_collect _ i).deposits

theorem quiet_continueLater {staying : Prop} (e : Engine) (i : InstanceId) (component : Nat) :
    Quiet staying e (e.continueLater i component) := by
  have hqueue : Quiet staying e (e.enqueue ⟨i, component, true⟩).2 := quiet_enqueue e _
  unfold continueLater
  split
  · next he =>
    rw [he] at hqueue
    exact hqueue
  · next he =>
    rw [he] at hqueue
    exact (hqueue.trans (quiet_releaseProgress _ i component)).trans
      (quiet_failFatally _ i component _)

theorem quiet_endStep {staying : Prop} (e : Engine) (i : InstanceId) (component : Nat)
    (midway : Bool) : Quiet staying e (e.endStep i component midway) := by
  have hset : Quiet staying e { e with executing := none } := .beside rfl rfl rfl rfl rfl rfl rfl
  exact hset.trans (.record _ rfl)

theorem quiet_beginStep {staying : Prop} (e : Engine) (t : Task) :
    Quiet staying e (e.beginStep t) := by
  have hset : Quiet staying e { e with executing := some (t.instanceId, t.component) } :=
    .beside rfl rfl rfl rfl rfl rfl rfl
  exact hset.trans (.record _ rfl)

theorem quiet_takeTask {staying : Prop} (e : Engine) (t : Task) :
    Quiet staying e (e.takeTask t) := by
  have hset : Quiet staying e { e with queue := e.queue.pop } := .beside rfl rfl rfl rfl rfl rfl rfl
  exact hset.trans (.record _ rfl)

/-- What follows from the outcome of a step. -/
theorem deposits_settleOutcome (i : InstanceId) (component : Nat)
    {outcome : EStateM.Result FlowError Engine Step} (hs : (stateAfter outcome).Stock T) :
    Deposits T False (stateAfter outcome) (settleOutcome i component outcome) := by
  match outcome with
  | .ok .completed e => exact (quiet_endStep e i component false).deposits
  | .ok .suspended e =>
    exact ((quiet_endStep e i component true).trans (quiet_continueLater _ i component)).deposits
  | .error err e =>
    have hrelease : Deposits T True e ((e.endStep i component false).releaseProgress i component) :=
      ((quiet_endStep e i component false).trans (quiet_releaseProgress _ i component)).deposits
    have hraise : Deposits T True _ _ :=
      hrelease.trans (deposits_raiseError (hrelease.stock hs) i component err.message)
    exact hraise.weaken

/-- The step of a component that is about to run. -/
theorem sustains_step (handler : Handler) (hi : Inv False e) (hh : e.definition.Hostless)
    (hs : e.Stock T) {t : Task} {c : Component}
    (hc : e.componentOf? t.instanceId t.component = some c) :
    Sustains T True (execute handler t.instanceId t.component c) (e.beginStep t) := by
  have hbegin : Deposits T True e (e.beginStep t) := (quiet_beginStep e t).deposits
  have hlive : (e.beginStep t).instance? t.instanceId ≠ none :=
    live_of_componentOf? (e := e) (by rw [hc]; exact Option.some_ne_none c)
  exact sustains_execute handler ((touches_beginStep hi t).inv hi) (hbegin.stock hs) rfl hlive
    (only_componentOf? hh hc)

/-- **A task** is a row of deposits. -/
theorem deposits_runTask (handler : Handler) (hi : Inv False e) (hh : e.definition.Hostless)
    (hs : e.Stock T) (t : Task) : Deposits T False e (e.runTask handler t) := by
  unfold runTask
  split
  · exact .refl
  next s hlive =>
  split
  · exact (quiet_failFatally e _ _ _).deposits
  next c hc =>
  split
  · have hrelease : Deposits T False e (e.releaseProgress t.instanceId t.component) :=
      (quiet_releaseProgress e _ _).deposits
    exact hrelease.trans (deposits_tidy (hrelease.stock hs) _ _)
  · have hcomponent : e.componentOf? t.instanceId t.component = some c := by
      rw [componentOf?_of_live hlive, hc]
      rfl
    have hbegin : Deposits T False e (e.beginStep t) := (quiet_beginStep e t).deposits
    have hstep := hbegin.trans (sustains_step handler hi hh hs hcomponent).after
    have hsettle := hstep.trans (deposits_settleOutcome t.instanceId t.component
      (Deposits.stock hstep hs))
    exact hsettle.trans (deposits_tidy (Deposits.stock hsettle hs) _ _)

/-! ## 2. Ticks -/

/-- A debugger comes or goes, or time passes. -/
theorem quiet_setting {staying : Prop} (e : Engine) (debugger : Option DebuggerMode)
    (skipBreakpoint : Option (InstanceId × Nat)) (clock : Nat) :
    Quiet staying e { e with debugger, skipBreakpoint, clock } :=
  .beside rfl rfl rfl rfl rfl rfl rfl

theorem quiet_debuggerBlocks {staying : Prop} (e : Engine) (t : Task) :
    Quiet staying e (e.debuggerBlocks t).2 := by
  rw [debuggerBlocks_snd]
  exact quiet_setting e _ _ e.clock

theorem deposits_runTasks (handler : Handler) (hi : Inv False e) (hh : e.definition.Hostless)
    (hs : e.Stock T) (count : Nat) (allowance : Option Nat) (report : TickReport) :
    Deposits T False e (runTasks handler count allowance report e).2 := by
  induction count generalizing allowance report e with
  | zero => exact .refl
  | succ count ih =>
    have htake (e : Engine) (t : Task) : Deposits T False e (e.takeTask t) :=
      (quiet_takeTask e t).deposits
    cases headway handler count allowance report e with
    | rest _ _ _ hr => rw [hr]
    | @drop t ts _ _ hr =>
      have hdrop : Deposits T False e ((e.takeTask t).record (.discarded t)) :=
        (htake e t).trans (deposits_record rfl)
      have hdropped : Touches False e ((e.takeTask t).record (.discarded t)) :=
        (touches_takeTask t).tail (.note rfl rfl)
      rw [hr]
      exact hdrop.trans (ih (hdropped.inv hi) hh (hdrop.stock hs) _ _)
    | hold t hr =>
      rw [hr]
      exact (quiet_debuggerBlocks e t).deposits
    | @run t ts _ _ _ hr =>
      have hblock : Leaps False True False e (e.debuggerBlocks t).2 :=
        leaps_debuggerBlocks hi .refl t
      have hi' : Inv False ((e.debuggerBlocks t).2.takeTask t) :=
        (touches_takeTask t).inv (hblock.inv hi)
      have hh' : ((e.debuggerBlocks t).2.takeTask t).definition.Hostless :=
        hblock.definition hi ▸ hh
      have hheld : Deposits T False e (e.debuggerBlocks t).2 := (quiet_debuggerBlocks e t).deposits
      have htaken : Deposits T False e ((e.debuggerBlocks t).2.takeTask t) :=
        hheld.trans (htake _ t)
      have hrun : Deposits T False e (((e.debuggerBlocks t).2.takeTask t).runTask handler t) :=
        htaken.trans (deposits_runTask handler hi' hh' (htaken.stock hs) t)
      rcases hr with ⟨_, hr⟩ | hr
      · rw [hr]
        exact hrun.trans (quiet_setting _ (some .paused) _ _).deposits
      · rw [hr]
        exact hrun.trans (ih ((course_runTask hi' hh' handler t).inv hi') (hrun.definition ▸ hh)
          (hrun.stock hs) _ _)

theorem deposits_shutdown : Deposits T False e e.shutdown := by
  have hfree (is : List InstanceId) (e : Engine) :
      Quiet False e (is.foldl (fun e i => e.free i) e) := by
    induction is generalizing e with
    | nil => exact .refl e
    | cons i is ih => exact (quiet_free i e).trans (ih _)
  have hhalt : Quiet False e
      ((e.forest.roots.foldl (fun e root => e.free root) e).record .halted) :=
    (hfree e.forest.roots e).trans (.record _ rfl)
  have hend : Quiet False e e.shutdown := hhalt.trans (.beside rfl rfl rfl rfl rfl rfl rfl)
  exact hend.deposits

theorem deposits_endTick (report : TickReport) : Deposits T False e (endTick report e).2 := by
  unfold endTick
  dsimp only
  refine Relation.ReflTransGen.trans ?_ (deposits_record rfl)
  split
  · exact deposits_shutdown
  · exact .refl

/-- **One tick** is a row of deposits. -/
theorem deposits_tick (handler : Handler) (hi : Inv False e) (hh : e.definition.Hostless)
    (hs : e.Stock T) (allowance : Option Nat) :
    Deposits T False e (e.tick handler allowance).2 := by
  unfold tick
  split
  · exact (deposits_runTasks handler hi hh hs _ _ _).trans (deposits_endTick _)
  · exact deposits_endTick _

theorem deposits_runUntilIdle (hi : Inv False e) (hh : e.definition.Hostless) (hs : e.Stock T)
    (allowance : Option Nat) (maxTicks : Nat) :
    Deposits T False e (runUntilIdle handler allowance maxTicks e).2 := by
  induction maxTicks generalizing e with
  | zero => exact .refl
  | succ maxTicks ih =>
    unfold runUntilIdle
    split
    · exact .refl
    have htick : Deposits T False e (e.tick handler allowance).2 :=
      deposits_tick handler hi hh hs allowance
    have hleaps : Leaps False True False e (e.tick handler allowance).2 :=
      leaps_tick (handlerLeaps_handler False) hi (fun _ => hh) False.elim .refl allowance
    exact htick.trans (ih (hleaps.inv hi) (htick.definition ▸ hh) (htick.stock hs))

end

end Engine

/-! ## 3. Terms of the host -/

/-- **The host keeps to its terms** with a command; `kept` answers for names. -/
def Command.Meets (T : Terms) (kept : String → Value) : Command → Prop
  | .assign _ _ destination value => destination.Meets T kept ∧ value.Meets T kept
  | .assignProperty _ _ _ _ value | .readThrough value | .setInput _ _ value
  | .propagate _ _ _ value | .setNative _ value => value.Meets T kept
  | .setGlobal _ value => ¬ T.noGlobals ∧ value.Meets T kept
  | _ => True

/-- The terms of a host that hands in no write targets that lead to storage. -/
def placeless : Terms := ⟨fun v => ¬ v.Plain, fun _ => id, False, False⟩

/-- **The native variables of the host are under its terms**: what they hold, whatever is written to
    them, and the refusals of writes. -/
structure Host.Meets (T : Terms) (host : Host) : Prop where
  natives : ∀ p ∈ host.natives.written, Offered T p.2
  keepTo : host.natives.KeepTo T

/-- A host without native variables is under all terms. -/
theorem Host.meets_empty (T : Terms) : Host.Meets T {} :=
  ⟨fun _ hp => (nomatch hp), Natives.keepTo_standard T []⟩

theorem Host.Meets.fair {T : Terms} {host : Host} (hm : host.Meets T) (h : Heap) :
    host.natives.Fair T h := ⟨hm.keepTo, fun p hp => (hm.natives p hp).fair h⟩

/-- **The host keeps to its terms** with a move. -/
def Move.Meets (T : Terms) (kept : String → Value) : Move → Prop
  | .order o => o.command.Meets T kept
  | .turn host => host.Meets T
  | _ => True

mutual

/-- Where the host may hand in places and arrays it may write down whatever it likes. -/
theorem Given.meets_of_free {T : Terms} (hp : ∀ v, ¬ T.barred v) (ha : ¬ T.noArrays)
    (kept : String → Value) : ∀ g : Given, g.Meets T kept
  | .plain _ | .kept _ => ⟨fun h => absurd h ha, hp _⟩
  | .array items => Given.allMeet_of_free hp ha kept items
  | .element _ g => ⟨fun _ _ => hp _, Given.meets_of_free hp ha kept g⟩

theorem Given.allMeet_of_free {T : Terms} (hp : ∀ v, ¬ T.barred v) (ha : ¬ T.noArrays)
    (kept : String → Value) : ∀ gs : List Given, Given.AllMeet T kept gs
  | [] => trivial
  | g :: gs => ⟨Given.meets_of_free hp ha kept g, Given.allMeet_of_free hp ha kept gs⟩

end

/-- Its native variables may hold whatever it likes. -/
theorem Host.meets_of_free {T : Terms} (hp : ∀ v, ¬ T.barred v) (ha : ¬ T.noArrays)
    (host : Host) : host.Meets T := by
  have hoffered (v : Value) : Offered T v := ⟨fun h => absurd h ha, hp v⟩
  refine ⟨fun p _ => hoffered p.2, fun _ _ => .inr (hoffered _), fun hn => ?_⟩
  exact absurd (hn (.global 0) nofun) (hp _)

/-- So it may do whatever it likes, unless it is to write no global variables. -/
theorem Move.meets_of_free {T : Terms} (hp : ∀ v, ¬ T.barred v) (ha : ¬ T.noArrays)
    (kept : String → Value) {m : Move}
    (hg : ∀ index g name, m = .order ⟨.setGlobal index g, name⟩ → ¬ T.noGlobals) :
    m.Meets T kept := by
  have hgiven (g : Given) : g.Meets T kept := Given.meets_of_free hp ha kept g
  cases m with
  | order o =>
    obtain ⟨command, name⟩ := o
    cases command with
    | setGlobal index g => exact ⟨hg index g name rfl, hgiven g⟩
    | assign i c d g => exact ⟨hgiven d, hgiven g⟩
    | assignProperty _ _ _ _ g | readThrough g | setInput _ _ g | propagate _ _ _ g
    | setNative _ g => exact hgiven g
    | _ => trivial
  | turn host => exact Host.meets_of_free hp ha host
  | _ => trivial

namespace Engine

/-- **The host keeps to its terms** with a row of moves. -/
def KeepsTo (T : Terms) : Engine → List Move → Prop
  | _, [] => True
  | e, m :: ms => m.Meets T e.host.keptValue ∧ KeepsTo T (e.move m) ms

section

variable {T : Terms} {e : Engine}

/-! ## 4. Commands -/

/-- A value that the host gives may be stored, if it keeps to its terms. -/
theorem deposits_placeGiven {g : InstrumentFlow.Given} (hg : g.Meets T e.host.keptValue) :
    Deposits T True e (e.placeGiven g).2 ∧ Fair T (e.placeGiven g).2.heap (e.placeGiven g).1 := by
  obtain ⟨hgrown, hv⟩ := g.place_fair e.heap hg
  exact ⟨.single (.aside e.stack hgrown), hv⟩

/-- An activity that the host asks for. -/
theorem Handles.asked {α : Type} {i : InstanceId} {Q : α → Engine → Prop} {a : Act α}
    (h : Handles T i Q a e) : Sustains T False a e := h.sustains False.elim

/-- What an activity leaves behind is left behind after the reply to it. -/
theorem Sustains.reply {α : Type} {sure : Prop} {a : Act α} (h : Sustains T sure a e)
    (reply : α → Engine → Reply) : Deposits T False e (replyOf reply a e).2 := by
  unfold replyOf
  split
  · next he => exact h.of_ok he
  · next he => exact (h.of_error he).1

/-- An activity on a value that the host gives. -/
theorem sustains_withGiven {α : Type} (hs : e.Stock T) {g : InstrumentFlow.Given}
    (hg : g.Meets T e.host.keptValue) {a : Value → Act α}
    (ha : ∀ v e', e'.host = e.host → e'.Stock T → Fair T e'.heap v → Sustains T False (a v) e') :
    Sustains T False (withGiven g a) e := by
  obtain ⟨hplace, hv⟩ := deposits_placeGiven hg
  unfold withGiven
  have hrest := ha (e.placeGiven g).1 (e.placeGiven g).2 rfl (hplace.stock hs) hv
  exact yields_get (yields_set_bind (hrest.from hplace.weaken id))

theorem handles_setInput (hs : e.Stock T) (i : InstanceId) (slot : Nat) {v : Value}
    (hv : Fair T e.heap v) : Handles T i (fun _ _ => True) (setInput i slot v) e := by
  unfold setInput
  refine handles_get ?_
  split
  · next hnone => exact handles_throw fun _ hl => absurd hnone hl
  next s hi =>
  dsimp only
  split
  · next hlt =>
    obtain ⟨s', hi', hinput⟩ := hs.feeds hi hlt.1
    have hwrite : Deposits T True e (e.writeSlot i slot v) := .single (.feed hi' hinput hv)
    exact handles_set (hwrite.trans (quiet_pingAll _ i _).deposits) trivial
  · exact handles_throw fun _ _ => rfl

theorem sustains_setGlobal (hn : ¬ T.noGlobals) (index : Nat) {v : Value} (hv : Fair T e.heap v) :
    Sustains T False (setGlobal index v) e := by
  unfold setGlobal
  refine yields_get ?_
  split
  · exact yields_set (.single (.setGlobal hn hv))
  · exact yields_throw ⟨.refl, fun _ => False.elim⟩

theorem deposits_clearInput (i : InstanceId) (slot : Nat) :
    Deposits T True e (e.clearInput i slot) := by
  unfold clearInput
  split
  · exact .refl
  next s hi =>
  split
  · next hlt => exact deposits_clearSlot ⟨s, hi, hlt⟩
  · exact .refl

theorem sustains_startFlow (hf : e.forest.Sound) (flow : Nat) :
    Sustains T False (startFlow flow) e := by
  unfold startFlow
  have hstart : Quiet False e
      { e.record .restarted with stopped := false, stopRequested := false, lastError := none } :=
    have hrecord : Quiet False e (e.record .restarted) := .record e rfl
    hrecord.trans (.beside rfl rfl rfl rfl rfl rfl rfl)
  refine yields_modify_bind ?_
  generalize he : ({ e.record .restarted with
    stopped := false, stopRequested := false, lastError := none } : Engine) = e₁ at hstart
  have hf₁ : e₁.forest.Sound := by
    rw [← he]
    exact hf
  unfold Yields
  rcases create_cases e₁ flow none false with ⟨err, hc⟩ | ⟨f, hflow, hp, hc⟩
  · rw [hc]
    exact ⟨hstart.deposits, fun _ => False.elim⟩
  · rw [hc]
    exact hstart.deposits.trans (deposits_arisen hf₁ hflow hp rfl)

/-- An evaluation on a stack of its own. -/
theorem deposits_evaluateCode (hs : e.Stock T) (i : InstanceId) (code : List UInt8)
    (iterators : List Int32) (stackCapacity : Nat) (target : Bool) :
    Deposits T True e (e.evaluateCode i code iterators stackCapacity target).2 := by
  have hstack (e : Engine) (stack : Expression.Stack) : Deposits T True e { e with stack } :=
    .single (.aside stack .refl)
  have hown := hstack e { capacity := stackCapacity }
  have hrun := hown.trans (runStream_finds (hown.stock hs) i code iterators target).1
  unfold evaluateCode
  dsimp only
  split
  · exact hrun.trans (hstack _ e.stack)
  · exact hrun.trans (hstack _ e.stack)

/-- **A command under the terms** is a row of deposits. -/
theorem deposits_perform (hi : Inv False e) (hh : e.definition.Hostless) (hs : e.Stock T)
    (command : Command) (hc : command.Meets T e.host.keptValue) :
    Deposits T False e (perform handler command e).2 := by
  have hsetting : ∀ debugger skipBreakpoint clock,
      Quiet False e { e with debugger, skipBreakpoint, clock } := quiet_setting e
  have hread {command : Command} (hc : command.isReading = true) :
      Deposits T False e (perform handler command e).2 := by rw [perform_reading handler hc]
  have hdesk {command : Command} (hc : command.isDesk = true) :
      Deposits T False e (perform handler command e).2 := by
    obtain ⟨ledger, dispatcher, he⟩ := perform_desk handler hc e
    rw [he]
    exact (quiet_request e ledger dispatcher).deposits
  cases command with
  | startFlow flow => exact (sustains_startFlow hi.sound flow).reply _
  | stop => exact .single (.rest (.beside rfl rfl rfl rfl rfl rfl rfl))
  | shutdown => exact deposits_shutdown
  | attach => exact (hsetting _ e.skipBreakpoint e.clock).deposits
  | detach => exact (hsetting _ none e.clock).deposits
  | pause => exact (hsetting _ e.skipBreakpoint e.clock).deposits
  | resume => exact (hsetting _ e.skipBreakpoint e.clock).deposits
  | singleStep => exact (hsetting _ e.skipBreakpoint e.clock).deposits
  | tick => exact deposits_tick handler hi hh hs _
  | runUntilIdle maxTicks => exact deposits_runUntilIdle hi hh hs _ maxTicks
  | evaluate i component property iterators =>
    exact (handles_evaluateProperty hs i component property iterators false).asked.reply _
  | evaluateTarget i component property iterators =>
    exact (handles_evaluateProperty hs i component property iterators true).asked.reply _
  | assignProperty i component property iterators value =>
    refine (sustains_withGiven hs hc fun v e' _ hs hv => ?_).reply _
    refine (handles_bind hs (handles_evaluateProperty hs i component property iterators true)
      fun d e'' hd hs ht => ?_).asked (i := i) (Q := fun _ _ => True)
    exact handles_assign hs i component ht.2.points (hd.fair hv)
  | assign i component destination value =>
    refine (sustains_withGiven hs hc.1 fun d e₁ hhost hs hd => ?_).reply _
    refine sustains_withGiven hs (hhost ▸ hc.2) fun v e₂ _ hs hv => ?_
    exact (handles_assign hs i component
      (fun hb => absurd hb hd.allowed) hv).asked
  | readThrough value =>
    refine (sustains_withGiven hs hc fun v e' _ hs hv => ?_).reply _
    exact (handles_resolved (i := ⟨0, 0⟩) hs .readValue
      fun hb => absurd hb hv.allowed).asked
  | readInput _ _ | readLocal _ _ | readGlobal _ | readHostState _ _ | readProgress _ _ | isAlive _
  | snapshot => exact hread rfl
  | setInput i slot value =>
    refine (sustains_withGiven hs hc fun v e' _ hs hv => ?_).reply _
    exact (handles_setInput hs i slot hv).asked
  | clearInput i slot =>
    have hclear : Deposits T True e (e.clearInput i slot) := deposits_clearInput i slot
    exact hclear.weaken
  | setGlobal index value =>
    exact (sustains_withGiven hs hc.2 fun v e' _ _ hv => sustains_setGlobal hc.1 index hv).reply _
  | setHostState i component state =>
    cases state with
    | none => exact (quiet_releaseProgress e i component).deposits
    | some n =>
      exact (quiet_allocateProgress e i component (p := .host n) fun _ h => nomatch h).deposits
  | call i component flow => exact (sustains_call hi hs i component flow).reply _
  | propagate i component output value =>
    exact (sustains_withGiven hs hc fun v e' _ hs hv =>
      (handles_propagate hs i component output hv).asked).reply _
  | pulse i component => exact (handles_pulse hs i component).asked.reply _
  | raiseError i component message =>
    have hraise : Deposits T True e (e.raiseError i component message) :=
      deposits_raiseError hs i component message
    exact hraise.weaken
  | startAsync i component => exact (quiet_startAsync e none i component).deposits
  | endAsync i component => exact (quiet_endAsync e none i component).deposits
  | log i component message => exact deposits_record rfl
  | setRunning b => exact .single (.rest (.beside rfl rfl rfl rfl rfl rfl rfl))
  | setNative id value =>
    obtain ⟨hplace, hv⟩ := deposits_placeGiven hc
    exact hplace.weaken.tail (.native ((hplace.stock hs).natives.write id hv))
  | takeRequest | respond _ _ | dropRequest _ | leaveDesk => exact hdesk rfl
  | evaluateCode i code iterators stackCapacity target =>
    have hcode : Deposits T True e (e.evaluateCode i code iterators stackCapacity target).2 :=
      deposits_evaluateCode hs i code iterators stackCapacity target
    exact hcode.weaken

/-! ## 5. Runs -/

/-- **A move under the terms** is a row of deposits. -/
theorem deposits_move (hi : Inv False e) (hh : e.definition.Hostless) (hs : e.Stock T) (m : Move)
    (hm : m.Meets T e.host.keptValue) : Deposits T False e (e.move m) := by
  cases m with
  | order o =>
    have hperform := deposits_perform hi hh hs o.command hm
    show Deposits T False e (performOrder handler o e).2
    rcases performOrder_cases handler o e with he | ⟨_, _, he⟩
    · rwa [he]
    · rw [he]
      exact hperform.tail (.rest (.beside rfl rfl rfl rfl rfl rfl rfl))
  | tick allowance => exact deposits_tick handler hi hh hs allowance
  | idle allowance maxTicks => exact deposits_runUntilIdle hi hh hs allowance maxTicks
  | pass clock => exact (quiet_setting e _ _ clock).deposits
  | serve ledger dispatcher => exact (quiet_request e ledger dispatcher).deposits
  | turn host => exact .single (.native (hm.fair e.heap))

/-- **A run under the terms** is a row of deposits. -/
theorem deposits_after (hi : Inv False e) (hh : e.definition.Hostless) (hs : e.Stock T)
    (moves : List Move) (hm : e.KeepsTo T moves) : Deposits T False e (e.after moves) := by
  induction moves generalizing e with
  | nil => exact .refl
  | cons m ms ih =>
    have hmove : Deposits T False e (e.move m) := deposits_move hi hh hs m hm.1
    have hleaps : Leaps False True False e (e.move m) :=
      leaps_move hi (fun _ => hh) False.elim .refl m False.elim False.elim
    exact hmove.trans (ih (hleaps.inv hi) (hmove.definition ▸ hh) (hmove.stock hs) hm.2)

/-- A program that was built has a sound stock. -/
theorem stock_built {d : Definition} (hv : d.validate = .ok ()) (config : Config)
    (dispatcher : Dispatcher) {host : Host} (hn : host.Meets T) :
    (built d config dispatcher host).Stock T := by
  obtain ⟨hg, hvs⟩ := Literal.materializeList_fair (T := T) d.globals {}
  have hnone := instance?_built d config dispatcher host
  refine ⟨hv, fun i s hs => ?_, hg.allFair Heap.allFair_empty, fun v hv => ?_, hn.fair _,
    fun i s hs => ?_, fun i s hs => ?_⟩
  · rw [hnone] at hs
    cases hs
  · exact hvs v (by simpa [built] using hv)
  · rw [hnone] at hs
    cases hs
  · rw [hnone] at hs
    cases hs

/-- **A run up to any state between two steps** is a row of deposits. -/
theorem deposits_between {d : Definition} {config : Config} {dispatcher : Dispatcher} {host : Host}
    {e₀ : Engine} (hb : build d config dispatcher host = .ok e₀) (hh : d.Hostless)
    (hn : host.Meets T) (moves : List Move) (hm : e₀.KeepsTo T moves) (count : Nat)
    (allowance : Option Nat) (report : TickReport) :
    e₀.Stock T
    ∧ Deposits T False e₀ (runTasks handler count allowance report (e₀.after moves)).2 := by
  obtain ⟨hv, he⟩ := build_eq_ok_iff.mp hb
  have h₀ : Inv False e₀ := inv_build hb False.elim
  have hd : e₀.definition = d := by rw [he]; rfl
  have hs : e₀.Stock T := by
    rw [he]
    exact stock_built hv config dispatcher hn
  have hafter : Deposits T False e₀ (e₀.after moves) := deposits_after h₀ (hd ▸ hh) hs moves hm
  have hleaps : Leaps False True False e₀ (e₀.after moves) :=
    leaps_after h₀ (fun _ => hd ▸ hh) False.elim moves False.elim False.elim
  have hhostless : (e₀.after moves).definition.Hostless := hafter.definition ▸ hd ▸ hh
  refine ⟨hs, hafter.trans ?_⟩
  exact deposits_runTasks handler (hleaps.inv h₀) hhostless (hafter.stock hs) _ _ _

end

end Engine

end InstrumentFlow
