import InstrumentFlow.Proofs.Engine.Deed

/-!
# Runs

A run is what becomes of a program that was built, through commands of the host, ticks that time may
cut short after any task, and whatever goes on around it.

* `Move`, `Engine.move`, `Engine.after` -- one move of a run; the state after a row of moves;
* `Move.IsHarmless`, `Move.KeepsNothing` -- what the host does not do by a move;
* `Move.startsFlow`, `Move.runsTasks` -- what the host does by it;
* `leaps_perform` -- a command is a row of leaps;
* `deeds_move` -- a move by which no flow starts and no task has its turn is a row of deeds;
* `handlerLeaps_handler` -- so are the components of the host, which give commands themselves;
* `leaps_after`, `course_after` -- a run is a row of leaps and a course;
* `inv_build`, `inv_after` -- the invariant holds in every state of every run.
-/

namespace InstrumentFlow

/-! ## 1. Moves -/

/-- One move of a run. -/
inductive Move where
  /-- The host gives a command. -/
  | order (o : Order)
  /-- One tick; its time may reach for so many tasks only. -/
  | tick (allowance : Option Nat)
  /-- Ticks until nothing is left to do. -/
  | idle (allowance : Option Nat) (maxTicks : Nat)
  /-- Time passes. -/
  | pass (clock : Nat)
  /-- Requests are served, answered or lost. -/
  | serve (ledger : Scpi.Ledger) (dispatcher : Dispatcher)
  /-- The host changes. -/
  | turn (host : Host)

/-- The host writes nothing into the flows by this move. -/
def Move.IsHarmless : Move → Prop
  | order o => o.command.IsHarmless
  | turn host => host.Harmless
  | _ => True

/-- The host keeps no progress for a component by this move. -/
def Move.KeepsNothing : Move → Prop
  | order o => o.command.KeepsNothing
  | _ => True

/-- The move starts a flow. -/
def Move.startsFlow : Move → Bool
  | order o => o.command.startsFlow
  | _ => false

/-- The move lets tasks have their turn. -/
def Move.runsTasks : Move → Bool
  | order o => o.command.runsTasks
  | tick _ | idle _ _ => true
  | _ => false

namespace Engine

/-- The state after a move. -/
def move (e : Engine) : Move → Engine
  | .order o => (performOrder handler o e).2
  | .tick allowance => (e.tick handler allowance).2
  | .idle allowance maxTicks => (runUntilIdle handler allowance maxTicks e).2
  | .pass clock => { e with clock }
  | .serve ledger dispatcher => { e with ledger, dispatcher }
  | .turn host => { e with host }

/-- **The state after a row of moves.** -/
def after (e : Engine) (moves : List Move) : Engine := moves.foldl move e

/-! ## 2. Commands -/

section

variable {closed hostless stateless : Prop} {e₀ e : Engine} {handler : Handler}
  (h₀ : Inv closed e₀) (hh : HandlerLeaps closed handler)
  (hd : hostless → e₀.definition.Hostless) (hs : stateless → hostless)
  (h : Leaps closed hostless stateless e₀ e)
include h₀ hh hd hs h

/-- **A command** is a row of leaps. -/
theorem leaps_perform (command : Command) (hc : closed → command.IsHarmless)
    (hk : stateless → command.KeepsNothing) :
    Leaps closed hostless stateless e₀ (perform handler command e).2 := by
  cases hstart : command.startsFlow with
  | true =>
    cases command with
    | startFlow flow => exact upholds_replyOf (upholds_startFlow h flow)
    | _ => cases hstart
  | false =>
    cases hrun : command.runsTasks with
    | true =>
      cases command with
      | tick => exact leaps_tick hh h₀ hd hs h _
      | runUntilIdle maxTicks => exact leaps_runUntilIdle hh h₀ hd hs h _ maxTicks
      | _ => cases hrun
    | false =>
      have hdeeds : Deeds closed stateless e (perform handler command e).2 :=
        deeds_perform (h.inv h₀) .refl handler command hstart hrun hc hk
      exact h.trans hdeeds.leaps

theorem leaps_performOrder (o : Order) (hc : closed → o.command.IsHarmless)
    (hk : stateless → o.command.KeepsNothing) :
    Leaps closed hostless stateless e₀ (performOrder handler o e).2 := by
  have hperform := leaps_perform h₀ hh hd hs h o.command hc hk
  rcases performOrder_cases handler o e with he | ⟨_, _, he⟩
  · rwa [he]
  · rw [he]
    exact leaps_setting hperform h₀ rfl fun hp => hp.store.host.same rfl rfl

end

/-! ## 3. Moves without tasks -/

section

variable {closed stateless : Prop} {e₀ e : Engine} (h₀ : Inv closed e₀)
  (h : Deeds closed stateless e₀ e)
include h₀ h

omit h in
/-- An order is a row of deeds if its command is. -/
theorem deeds_performOrder {handler : Handler} {o : Order}
    (hperform : Deeds closed stateless e₀ (perform handler o.command e).2) :
    Deeds closed stateless e₀ (performOrder handler o e).2 := by
  rcases performOrder_cases handler o e with he | ⟨_, _, he⟩
  · rwa [he]
  · rw [he]
    exact deeds_setting hperform h₀ rfl fun hp => hp.store.host.same rfl rfl

/-- **A move** that neither starts a flow nor lets tasks have their turn is a row of deeds. -/
theorem deeds_move (m : Move) (hs : m.startsFlow = false) (hr : m.runsTasks = false)
    (hm : closed → m.IsHarmless) (hk : stateless → m.KeepsNothing) :
    Deeds closed stateless e₀ (e.move m) := by
  cases m with
  | order o => exact deeds_performOrder h₀ (deeds_perform h₀ h handler o.command hs hr hm hk)
  | tick _ | idle _ _ => cases hr
  | pass clock => exact deeds_debugger h h₀ e.debugger e.skipBreakpoint clock
  | serve ledger dispatcher => exact deeds_request h ledger dispatcher
  | turn host =>
    refine h.tail (.setting rfl fun hc => ?_)
    have hs := ((h.inv h₀).plain hc).store
    exact ⟨hs.globals, hs.heap, hm hc⟩

end

/-! ## 4. Components of the host -/

section

variable {closed : Prop} {e₀ e : Engine} {handler : Handler} (hh : HandlerLeaps closed handler)
  (h₀ : Inv closed e₀) (h : Leaps closed False False e₀ e)
include hh h₀ h

theorem leaps_performAll (i : InstanceId) (component : Nat)
    (orders : List (InstanceId → Nat → Order))
    (hc : closed → ∀ o ∈ orders, ∀ i component, (o i component).command.IsHarmless) :
    Leaps closed False False e₀ (performAll handler i component orders e).2 := by
  induction orders generalizing e with
  | nil => exact h
  | cons o orders ih =>
    have horder := leaps_performOrder h₀ hh False.elim id h (o i component)
      (fun hcl => hc hcl o List.mem_cons_self i component) False.elim
    exact ih horder fun hcl o' ho' => hc hcl o' (List.mem_cons_of_mem o ho')

theorem upholds_runCall (c : HostCall) (i : InstanceId) (component : Nat)
    (hc : closed → ∀ o ∈ c.orders, ∀ i component, (o i component).command.IsHarmless) :
    Upholds (Leaps closed False False e₀) (fun _ _ => True) (runCall handler c i component) e := by
  have hall := leaps_performAll hh h₀ h i component c.orders hc
  unfold runCall
  refine upholds_get (upholds_set_bind ?_)
  have hcalled := leaps_record hall (.hostCalled i component
    (performAll handler i component c.orders e).1) rfl rfl rfl
  split
  · exact upholds_pure hcalled trivial
  · exact upholds_pure hcalled trivial
  · exact upholds_throw hcalled

end

/-- An execution that a harmless host has ready consists of harmless orders. -/
theorem harmless_nextCall {host host' : Host} {code : UInt16} {c : HostCall} (hh : host.Harmless)
    (hc : host.nextCall code = some (c, host')) :
    host'.Harmless ∧ ∀ o ∈ c.orders, ∀ i component, (o i component).command.IsHarmless := by
  unfold Host.nextCall at hc
  split at hc
  · cases hc
  next calls hcalls =>
  obtain ⟨hcall, rfl⟩ := Prod.mk.inj (Option.some.inj hc)
  refine ⟨hh.same rfl rfl, ?_⟩
  obtain ⟨l₁, l₂, heq, _⟩ := List.lookup_eq_some_iff.mp hcalls
  have hmem : (code, calls) ∈ host.components := by
    rw [heq]
    exact List.mem_append_right _ List.mem_cons_self
  have hcase : c = {} ∨ c ∈ calls := by
    rw [← hcall]
    generalize (host.executions.lookup code).getD 0 = count
    cases hcount : calls[count]? with
    | some d => exact Or.inr (List.mem_of_getElem? hcount)
    | none =>
      cases hlast : calls.getLast? with
      | some d => exact Or.inr (List.mem_of_getLast? hlast)
      | none => exact Or.inl rfl
  rcases hcase with rfl | hcase
  · exact fun o ho => (nomatch ho)
  · exact hh.orders _ hmem c hcase

/-- **The components of the host** run as leaps, however deep they are nested. -/
theorem handlerLeaps_handlerWithin (closed : Prop) (depth : Nat) :
    HandlerLeaps closed (handlerWithin depth) := by
  induction depth with
  | zero =>
    intro code i component e₀ e h₀ h
    unfold handlerWithin
    refine upholds_modify_bind (upholds_pure ?_ trivial)
    exact leaps_strokes h (strokes_breakDown (h.inv h₀) .refl _)
  | succ depth ih =>
    intro code i component e₀ e h₀ h
    unfold handlerWithin
    refine upholds_get ?_
    split
    · exact upholds_throw h
    · next c host hnext =>
      have hharmless (hc : closed) :=
        harmless_nextCall ((h.inv h₀).plain hc).store.host hnext
      refine upholds_set_bind (upholds_runCall ih h₀ ?_ c i component fun hc => (hharmless hc).2)
      refine h.tail (.setting rfl fun hc => ?_)
      have hs := ((h.inv h₀).plain hc).store
      exact ⟨hs.globals, hs.heap, (hharmless hc).1⟩

theorem handlerLeaps_handler (closed : Prop) : HandlerLeaps closed handler :=
  handlerLeaps_handlerWithin closed nestingLimit

/-! ## 5. Runs -/

section

variable {closed hostless stateless : Prop} {e₀ e : Engine} (h₀ : Inv closed e₀)
  (hd : hostless → e₀.definition.Hostless) (hs : stateless → hostless)
include h₀ hd hs

/-- **A move** is a row of leaps. -/
theorem leaps_move (h : Leaps closed hostless stateless e₀ e) (m : Move)
    (hm : closed → m.IsHarmless) (hk : stateless → m.KeepsNothing) :
    Leaps closed hostless stateless e₀ (e.move m) := by
  have hh := handlerLeaps_handler closed
  cases m with
  | order o => exact leaps_performOrder h₀ hh hd hs h o hm hk
  | tick allowance => exact leaps_tick hh h₀ hd hs h allowance
  | idle allowance maxTicks => exact leaps_runUntilIdle hh h₀ hd hs h allowance maxTicks
  | pass _ | serve _ _ | turn _ =>
    have hi := h.inv h₀
    exact h.trans (deeds_move hi .refl _ rfl rfl hm hk).leaps

/-- **A run is a row of leaps.** -/
theorem leaps_after (moves : List Move) (hm : closed → ∀ m ∈ moves, m.IsHarmless)
    (hk : stateless → ∀ m ∈ moves, m.KeepsNothing) :
    Leaps closed hostless stateless e₀ (e₀.after moves) := by
  suffices hafter : ∀ {e}, Leaps closed hostless stateless e₀ e →
      (closed → ∀ m ∈ moves, m.IsHarmless) → (stateless → ∀ m ∈ moves, m.KeepsNothing) →
      Leaps closed hostless stateless e₀ (e.after moves) from hafter .refl hm hk
  clear hm hk
  intro e h hm hk
  induction moves generalizing e with
  | nil => exact h
  | cons m moves ih =>
    have hmove := leaps_move h₀ hd hs h m (fun hc => hm hc m List.mem_cons_self)
      fun hst => hk hst m List.mem_cons_self
    exact ih hmove (fun hc m' hm' => hm hc m' (List.mem_cons_of_mem m hm'))
      fun hst m' hm' => hk hst m' (List.mem_cons_of_mem m hm')

end

/-- **A run is a course.** -/
theorem course_after {closed : Prop} {e : Engine} (hi : Inv closed e) (moves : List Move)
    (hm : closed → ∀ m ∈ moves, m.IsHarmless) : Course closed e (e.after moves) :=
  have hleaps : Leaps closed False False e (e.after moves) :=
    leaps_after hi False.elim id moves hm False.elim
  hleaps.course hi

/-- What is built from a sound definition. -/
def built (d : Definition) (config : Config) (dispatcher : Dispatcher) (host : Host) : Engine :=
  { definition := d, config, dispatcher, host
    globals := (Literal.materializeList d.globals {}).1.toArray
    heap := (Literal.materializeList d.globals {}).2
    queue := { capacity := config.queueCapacity }
    stack := { capacity := config.stackCapacity } }

theorem build_eq_ok_iff {d : Definition} {config : Config} {dispatcher : Dispatcher} {host : Host}
    {e : Engine} :
    build d config dispatcher host = .ok e
      ↔ d.validate = .ok () ∧ e = built d config dispatcher host := by
  unfold build
  cases d.validate with
  | error err => exact ⟨fun h => (nomatch h), fun h => (nomatch h.1)⟩
  | ok u => exact ⟨fun h => ⟨rfl, (Except.ok.inj h).symm⟩, fun h => congrArg Except.ok h.2.symm⟩

/-- Before the first move there is no instance. -/
theorem instance?_built (d : Definition) (config : Config) (dispatcher : Dispatcher) (host : Host)
    (i : InstanceId) : (built d config dispatcher host).instance? i = none := by
  simp [built, instance?, Forest.get?]

/-- **A program that was built** satisfies the invariant. -/
theorem inv_build {closed : Prop} {d : Definition} {config : Config} {dispatcher : Dispatcher}
    {host : Host} {e : Engine} (hb : build d config dispatcher host = .ok e)
    (hh : closed → host.Harmless) : Inv closed e := by
  obtain ⟨_, rfl⟩ := build_eq_ok_iff.mp hb
  obtain ⟨hglobals, hheap⟩ := Literal.materializeList_plain d.globals Heap.plain_empty
  refine ⟨Forest.sound_empty, fun i s hs => ?_, fun hc => ⟨⟨?_, hheap, hh hc⟩, fun i s hs => ?_⟩⟩
  · rw [instance?_built] at hs
    cases hs
  · exact fun v hv => hglobals v (by simpa [built] using hv)
  · rw [instance?_built] at hs
    cases hs

/-- **The invariant holds in every state of every run.** -/
theorem inv_after {closed : Prop} {e : Engine} (hi : Inv closed e) (moves : List Move)
    (hm : closed → ∀ m ∈ moves, m.IsHarmless) : Inv closed (e.after moves) :=
  (course_after hi moves hm).inv hi

end Engine

end InstrumentFlow
