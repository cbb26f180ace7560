import InstrumentFlow.Proofs.Engine.Leap

/-!
# Deeds

What the host does between ticks, short of a new start, is a row of deeds. In deeds no task has its
turn, no step begins, and progress stays as it is, but for errors that the host raises, for what it
keeps itself, and for the end of the run.

* `Command.startsFlow`, `Command.runsTasks`, `Command.KeepsNothing` -- what a command does;
* `Deed`, `Deeds` -- one deed; deeds in a row;
* `Deeds.leaps` -- deeds are leaps;
* `deeds_shutdown`, `deeds_endTick` -- the end of a run, and of a tick that ran no task;
* `perform_reading`, `perform_desk` -- commands that read, and those at the desk;
* `performOrder_cases` -- an order is its command, and a value that the host may keep;
* `deeds_perform` -- every other command than a start or a tick is a row of deeds;
* `Deeds.preserves` -- what every deed keeps holds along rows of them.
-/

namespace InstrumentFlow

/-! ## 1. Commands -/

namespace Command

/-- The host keeps no progress for a component by this command. -/
def KeepsNothing : Command → Prop
  | setHostState _ _ _ => False
  | _ => True

/-- The command reads, and no more than that. -/
def isReading : Command → Bool
  | readInput _ _ | readLocal _ _ | readGlobal _ | readHostState _ _ | readProgress _ _
  | isAlive _ | snapshot => true
  | _ => false

/-- The command takes or settles requests at the desk. -/
def isDesk : Command → Bool
  | takeRequest | respond _ _ | dropRequest _ | leaveDesk => true
  | _ => false

/-- The command starts a flow. -/
def startsFlow : Command → Bool
  | .startFlow _ => true
  | _ => false

/-- The command lets tasks have their turn. -/
def runsTasks : Command → Bool
  | tick | runUntilIdle _ => true
  | _ => false

end Command

namespace Engine

/-! ## 2. Deeds -/

/-- **One deed** of the host. -/
inductive Deed (closed stateless : Prop) (e : Engine) : Engine → Prop
  | pace {e' : Engine} (h : Pace closed untouched e e') : Deed closed stateless e e'
  /-- The host raises an error. -/
  | raise (i : InstanceId) (component : Nat) (message : String) :
      Deed closed stateless e (e.raiseError i component message)
  | halt (hl : ∀ i, e.instance? i = none) : Deed closed stateless e e.halt
  /-- Time passes, the host changes, or a debugger comes or goes. -/
  | setting {e' : Engine}
      (he : e' = { e with
        debugger := e'.debugger, skipBreakpoint := e'.skipBreakpoint, clock := e'.clock
        host := e'.host })
      (hs : closed → e'.Store) : Deed closed stateless e e'
  /-- The host keeps progress for a component, or ends it. -/
  | keep (hn : ¬ stateless) (i : InstanceId) (component : Nat) (state : Option Int32) :
      Deed closed stateless e (e.setHostState i component state)

/-- Deeds in a row. -/
abbrev Deeds (closed stateless : Prop) : Engine → Engine → Prop :=
  Relation.ReflTransGen (Deed closed stateless)

section

variable {closed stateless : Prop} {e e' : Engine}

theorem Deed.leap {hostless : Prop} (h : Deed closed stateless e e') :
    Leap closed hostless stateless e e' := by
  cases h with
  | pace h => exact .pace (fun _ _ _ _ => id) h
  | raise i component message => exact .raise i component message
  | halt hl => exact .halt hl
  | setting he hs => exact .setting he hs
  | keep hn i component state => exact .keep hn i component state

/-- **Deeds are leaps.** -/
theorem Deeds.leaps {hostless : Prop} (h : Deeds closed stateless e e') :
    Leaps closed hostless stateless e e' :=
  Relation.ReflTransGen.mono (fun _ _ => Deed.leap) _ _ h

theorem Deeds.inv (h : Deeds closed stateless e e') (hi : Inv closed e) : Inv closed e' :=
  have hleaps : Leaps closed False stateless e e' := h.leaps
  hleaps.inv hi

/-- **What every deed keeps holds along every row of deeds.** -/
theorem Deeds.preserves {P : Engine → Prop}
    (hP : ∀ e e', Inv closed e → Deed closed stateless e e' → P e → P e')
    (h : Deeds closed stateless e e') (hi : Inv closed e) (hp : P e) : P e' := by
  induction h with
  | refl => exact hp
  | tail hs h ih => exact hP _ _ (Deeds.inv hs hi) h ih

end

/-! ## 3. Rows of paces among deeds -/

section

variable {closed stateless : Prop} {e₀ e : Engine} (h : Deeds closed stateless e₀ e)
include h

theorem deeds_paces {e' : Engine} (hp : Paces closed untouched e e') :
    Deeds closed stateless e₀ e' :=
  h.trans (Relation.ReflTransGen.mono (fun _ _ => Deed.pace) _ _ hp)

theorem deeds_strokes {e' : Engine} (hs : Strokes closed untouched e e') :
    Deeds closed stateless e₀ e' :=
  deeds_paces h hs.paces

theorem deeds_record (event : Event) (hl : event.isLife = false) (ht : event.isTraffic = false)
    (hc : event.isCourse = false) : Deeds closed stateless e₀ (e.record event) :=
  deeds_paces h (paces_record .refl event hl ht hc)

/-- An activity that is a row of paces goes on along deeds. -/
theorem upholds_doing {α : Type} {Q : α → Engine → Prop} {a : Act α}
    (ha : Upholds (Paces closed untouched e) Q a e) :
    Upholds (Deeds closed stateless e₀) Q a e :=
  ha.mono (fun _ hp => deeds_paces h hp) fun _ _ _ hq => hq

/-- An activity that is a row of strokes goes on along deeds. -/
theorem upholds_striking {α : Type} {Q : α → Engine → Prop} {a : Act α}
    (ha : Upholds (Strokes closed untouched e) Q a e) :
    Upholds (Deeds closed stateless e₀) Q a e :=
  upholds_doing h (upholds_pacing .refl ha)

variable (h₀ : Inv closed e₀)
include h₀

/-- A change of the clock, of the debugger or of what the host answers. -/
theorem deeds_setting {e' : Engine}
    (he : e' = { e with
      debugger := e'.debugger, skipBreakpoint := e'.skipBreakpoint, clock := e'.clock
      host := e'.host })
    (hs : e.Plain → e'.host.Harmless) : Deeds closed stateless e₀ e' := by
  refine h.tail (.setting he fun hc => ?_)
  have hp := (h.inv h₀).plain hc
  rw [he]
  exact ⟨hp.store.globals, hp.store.heap, hs hp⟩

/-- A change of the clock or of the debugger. -/
theorem deeds_debugger (debugger : Option DebuggerMode)
    (skipBreakpoint : Option (InstanceId × Nat)) (clock : Nat) :
    Deeds closed stateless e₀ { e with debugger, skipBreakpoint, clock } :=
  deeds_setting h h₀ rfl fun hp => hp.store.host

/-- **The end of a run** is a row of deeds. -/
theorem deeds_shutdown : Deeds closed stateless e₀ e.shutdown := by
  have hfree : Paces closed untouched e (e.forest.roots.foldl (fun e root => e.free root) e) :=
    paces_freeAll (h.inv h₀) .refl e.forest.roots
  exact (deeds_paces h hfree).tail (.halt (instance?_freeAll (h.inv h₀)))

/-- So is the end of a tick. -/
theorem deeds_endTick (report : TickReport) :
    Deeds closed stateless e₀ (endTick report e).2 := by
  unfold endTick
  dsimp only
  refine deeds_record ?_ _ rfl rfl rfl
  split
  · exact deeds_shutdown h h₀
  · exact h

end

/-! ## 4. Writes and requests -/

section

variable {closed stateless : Prop} {e₀ e : Engine} (h : Deeds closed stateless e₀ e)
include h

/-- A write from outside: only a host that is not harmless does that. -/
theorem upholds_setInput (hopen : ¬ closed) (i : InstanceId) (slot : Nat) (v : Value) :
    Upholds (Deeds closed stateless e₀) (fun _ _ => True) (setInput i slot v) e := by
  unfold setInput
  refine upholds_get ?_
  split
  · exact upholds_throw h
  dsimp only
  split
  · have hwrite : Strokes closed untouched e (e.writeSlot i slot v) :=
      .single (.write fun hc => absurd hc hopen)
    exact upholds_set (deeds_strokes h (strokes_pingAll hwrite rfl i _)) trivial
  · exact upholds_throw h

theorem upholds_setGlobal (hopen : ¬ closed) (index : Nat) (v : Value) :
    Upholds (Deeds closed stateless e₀) (fun _ _ => True) (setGlobal index v) e := by
  unfold setGlobal
  refine upholds_get ?_
  split
  · refine upholds_set (deeds_strokes h ?_) trivial
    exact strokes_writeGlobal .refl index fun hc => absurd hc hopen
  · exact upholds_throw h

theorem deeds_clearInput (i : InstanceId) (slot : Nat) :
    Deeds closed stateless e₀ (e.clearInput i slot) := by
  unfold clearInput
  split
  · exact h
  · split
    · exact deeds_strokes h (strokes_clearSlot .refl i slot)
    · exact h

/-- Requests are served, answered or lost. -/
theorem deeds_request (ledger : Scpi.Ledger) (dispatcher : Dispatcher) :
    Deeds closed stateless e₀ { e with ledger, dispatcher } :=
  deeds_strokes h (.single (.request ledger dispatcher))

variable (h₀ : Inv closed e₀)
include h₀

theorem deeds_placeGiven {g : Given} (hg : closed → g.IsPlain) :
    Deeds closed stateless e₀ (e.placeGiven g).2 ∧ (closed → (e.placeGiven g).1.Plain) := by
  have hplace (hc : closed) :=
    Given.place_plain e.host.keptValue g (hg hc) ((h.inv h₀).plain hc).store.heap
  have hheap : Strokes closed untouched e (e.placeGiven g).2 :=
    .single (.aside rfl rfl fun hc =>
      have hs := ((h.inv h₀).plain hc).store
      ⟨hs.globals, (hplace hc).2, hs.host⟩)
  exact ⟨deeds_strokes h hheap, fun hc => (hplace hc).1⟩

theorem upholds_withGiven {α : Type} {Q : α → Engine → Prop} {g : Given} {a : Value → Act α}
    (hg : closed → g.IsPlain)
    (ha : ∀ v e, Deeds closed stateless e₀ e → (closed → v.Plain) →
      Upholds (Deeds closed stateless e₀) Q (a v) e) :
    Upholds (Deeds closed stateless e₀) Q (withGiven g a) e := by
  obtain ⟨hplace, hv⟩ := deeds_placeGiven h h₀ hg
  unfold withGiven
  exact upholds_get (upholds_set_bind (ha _ _ hplace hv))

/-- An evaluation on a stack of its own. -/
theorem deeds_evaluateCode (i : InstanceId) (code : List UInt8) (iterators : List Int32)
    (stackCapacity : Nat) (target : Bool) :
    Deeds closed stateless e₀ (e.evaluateCode i code iterators stackCapacity target).2 := by
  have hi := h.inv h₀
  have hstack {e' : Engine} (hs : Strokes closed untouched e e') (stack : Expression.Stack) :
      Strokes closed untouched e { e' with stack } :=
    strokes_aside hi hs rfl rfl fun hp => ⟨hp.store.globals, hp.store.heap, hp.store.host⟩
  have hrun := (runStream_spec hi (hstack .refl { capacity := stackCapacity }) i code iterators
    target).1
  unfold evaluateCode
  dsimp only
  split
  · exact deeds_strokes h (hstack hrun e.stack)
  · exact deeds_strokes h (hstack hrun e.stack)

end

/-! ## 5. Commands are rows of deeds -/

/-- What holds after an activity holds after the reply that is made of its result. -/
theorem upholds_replyOf {α : Type} {P : Engine → Prop} {Q : α → Engine → Prop}
    {reply : α → Engine → Reply} {a : Act α} {e : Engine} (ha : Upholds P Q a e) :
    P (replyOf reply a e).2 := by
  unfold replyOf
  split
  · next he => exact (ha.of_ok he).1
  · next he => exact ha.of_error he

/-- Who reads changes nothing. -/
theorem perform_reading (handler : Handler) {command : Command} (hc : command.isReading = true)
    (e : Engine) : (perform handler command e).2 = e := by
  cases command with
  | readInput _ _ | readLocal _ _ | readGlobal _ | isAlive _ | snapshot => rfl
  | readHostState _ _ | readProgress _ _ =>
    unfold perform
    dsimp only
    split <;> rfl
  | _ => cases hc

/-- Requests are settled at the desk only. -/
theorem settleRequest_snd (e : Engine) (number : Nat) : (e.settleRequest number).2
    = { e with dispatcher := (e.settleRequest number).2.dispatcher } := by
  unfold settleRequest
  split <;> rfl

theorem perform_takeRequest (handler : Handler) (e : Engine) :
    (perform handler .takeRequest e).2 = e.takeRequest.2 := by
  unfold perform
  dsimp only
  split <;> next he => rw [he]

theorem perform_respond (handler : Handler) (number : Nat) (response : Scpi.Response) (e : Engine) :
    (perform handler (.respond number response) e).2 = (e.respond number response).2 := by
  unfold perform
  dsimp only
  split <;> next he => rw [he]

/-- **At the desk** nothing changes but requests and what becomes of them. -/
theorem perform_desk (handler : Handler) {command : Command} (hc : command.isDesk = true)
    (e : Engine) : ∃ ledger dispatcher,
      (perform handler command e).2 = { e with ledger, dispatcher } := by
  have hsettle {number : Nat} {r : Option Scpi.Request} {e₁ : Engine}
      (he : e.settleRequest number = (r, e₁)) : ∃ dispatcher, e₁ = { e with dispatcher } := by
    have hdesk := settleRequest_snd e number
    rw [he] at hdesk
    exact ⟨_, hdesk⟩
  cases command with
  | takeRequest =>
    rw [perform_takeRequest]
    unfold takeRequest
    split
    · exact ⟨_, _, rfl⟩
    · exact ⟨_, _, rfl⟩
  | respond number response =>
    rw [perform_respond]
    unfold respond
    split
    · next he =>
      obtain ⟨dispatcher, rfl⟩ := hsettle he
      exact ⟨_, _, rfl⟩
    · next he =>
      obtain ⟨dispatcher, rfl⟩ := hsettle he
      exact ⟨_, _, rfl⟩
  | dropRequest number =>
    show ∃ ledger dispatcher, (e.dropRequest number).2 = { e with ledger, dispatcher }
    unfold dropRequest
    split
    · next he =>
      obtain ⟨dispatcher, rfl⟩ := hsettle he
      exact ⟨_, _, rfl⟩
    · next he =>
      obtain ⟨dispatcher, rfl⟩ := hsettle he
      exact ⟨_, _, rfl⟩
  | leaveDesk =>
    show ∃ ledger dispatcher, e.leaveDesk.2 = { e with ledger, dispatcher }
    unfold leaveDesk
    split
    · exact ⟨_, _, rfl⟩
    · exact ⟨_, _, rfl⟩
  | _ => cases hc

/-- **After an order** nothing is different from what the command left, but that the host may have
    kept a value. -/
theorem performOrder_cases (handler : Handler) (o : Order) (e : Engine) :
    (performOrder handler o e).2 = (perform handler o.command e).2
    ∨ ∃ name v, (performOrder handler o e).2 = { (perform handler o.command e).2 with
        host := (perform handler o.command e).2.host.keep name v } := by
  unfold performOrder
  dsimp only
  split
  · exact Or.inr ⟨_, _, rfl⟩
  · exact Or.inl rfl

/-- **A command** that neither starts a flow nor lets tasks have their turn is a row of deeds. -/
theorem deeds_perform {closed stateless : Prop} {e₀ e : Engine} (h₀ : Inv closed e₀)
    (h : Deeds closed stateless e₀ e) (handler : Handler) (command : Command)
    (hs : command.startsFlow = false) (hr : command.runsTasks = false)
    (hc : closed → command.IsHarmless) (hk : stateless → command.KeepsNothing) :
    Deeds closed stateless e₀ (perform handler command e).2 := by
  have hi := h.inv h₀
  have hopen (hf : ¬ command.IsHarmless) : ¬ closed := fun hcl => hf (hc hcl)
  have hdebug := deeds_debugger h h₀
  have hread {command : Command} (hc : command.isReading = true) :
      Deeds closed stateless e₀ (perform handler command e).2 := by
    rwa [perform_reading handler hc]
  have hdesk {command : Command} (hc : command.isDesk = true) :
      Deeds closed stateless e₀ (perform handler command e).2 := by
    obtain ⟨ledger, dispatcher, he⟩ := perform_desk handler hc e
    rw [he]
    exact deeds_request h ledger dispatcher
  -- only a host that is not harmless hands in other values than plain ones
  cases command with
  | startFlow flow => cases hs
  | tick | runUntilIdle maxTicks => cases hr
  | stop => exact deeds_paces h (.single .stop)
  | shutdown => exact deeds_shutdown h h₀
  | attach => exact hdebug _ e.skipBreakpoint e.clock
  | detach => exact hdebug _ none e.clock
  | pause => exact hdebug _ e.skipBreakpoint e.clock
  | resume => exact hdebug _ e.skipBreakpoint e.clock
  | singleStep => exact hdebug _ e.skipBreakpoint e.clock
  | evaluate i component property iterators =>
    exact upholds_replyOf (upholds_striking h (upholds_evaluateProperty hi .refl i _ _ _ false))
  | evaluateTarget i component property iterators =>
    exact upholds_replyOf (upholds_striking h (upholds_evaluateProperty hi .refl i _ _ _ true))
  | assignProperty i component property iterators value =>
    have hopen := hopen id
    refine upholds_replyOf (upholds_withGiven (Q := fun _ _ => True) h h₀
      (fun hcl => absurd hcl hopen) fun v e h _ => upholds_striking h ?_)
    refine upholds_bind (upholds_evaluateProperty (h.inv h₀) .refl i _ _ _ true) fun d e' h' _ => ?_
    exact upholds_assign (h.inv h₀) h' i component v fun hcl => absurd hcl hopen
  | assign i component destination value =>
    have hopen := hopen id
    refine upholds_replyOf (upholds_withGiven (Q := fun _ _ => True) h h₀
      (fun hcl => absurd hcl hopen) fun d e h _ => ?_)
    refine upholds_withGiven h h₀ (fun hcl => absurd hcl hopen) fun v e h _ => ?_
    exact upholds_striking h
      (upholds_assign (h.inv h₀) .refl i component v fun hcl => absurd hcl hopen)
  | readThrough value =>
    exact upholds_replyOf (upholds_withGiven h h₀ hc fun v e h _ =>
      upholds_striking h (upholds_resolved (h.inv h₀) .refl _ v))
  | readInput _ _ | readLocal _ _ | readGlobal _ | readHostState _ _ | readProgress _ _ | isAlive _
  | snapshot => exact hread rfl
  | setInput i slot value =>
    have hopen := hopen id
    exact upholds_replyOf (upholds_withGiven h h₀ (fun hcl => absurd hcl hopen) fun v e h _ =>
      upholds_setInput h hopen i slot v)
  | clearInput i slot => exact deeds_clearInput h i slot
  | setGlobal index value =>
    have hopen := hopen id
    exact upholds_replyOf (upholds_withGiven h h₀ (fun hcl => absurd hcl hopen) fun v e h _ =>
      upholds_setGlobal h hopen index v)
  | setHostState i component state => exact h.tail (.keep (fun hst => hk hst) i component state)
  | call i component flow =>
    exact upholds_replyOf (upholds_doing h (upholds_call hi .refl i component flow))
  | propagate i component output value =>
    exact upholds_replyOf (upholds_withGiven h h₀ hc fun v e h _ =>
      upholds_striking h (upholds_propagate (h.inv h₀) .refl i component output v))
  | pulse i component =>
    exact upholds_replyOf (upholds_striking h (upholds_pulse hi .refl i component))
  | raiseError i component message => exact h.tail (.raise i component message)
  | startAsync i component => exact deeds_paces h (.single (.await i component))
  | endAsync i component => exact deeds_paces h (paces_endAsync hi .refl none i component)
  | log i component message => exact deeds_record h _ rfl rfl rfl
  | setRunning b =>
    exact deeds_setting h h₀ rfl fun hp => hp.store.host.same rfl rfl
  | setNative id value =>
    obtain ⟨hplace, hv⟩ := deeds_placeGiven h h₀ hc
    refine hplace.tail (.setting rfl fun hcl => ?_)
    have hst := ((hplace.inv h₀).plain hcl).store
    exact ⟨hst.globals, hst.heap, hst.host.setNative id (hv hcl)⟩
  | takeRequest | respond _ _ | dropRequest _ | leaveDesk => exact hdesk rfl
  | evaluateCode i code iterators stackCapacity target =>
    exact deeds_evaluateCode h h₀ i code iterators stackCapacity target

end Engine

end InstrumentFlow
