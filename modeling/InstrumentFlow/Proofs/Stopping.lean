import InstrumentFlow.Proofs.Queue
import InstrumentFlow.Proofs.Stopping.End
import InstrumentFlow.Proofs.Suspension

/-!
# Stops

A stop is asked for by the host, by the end of a flow that nobody called, or by a fatal error. It
takes place at the end of a tick, at the latest of the next one, unless a flow is started before.

* `Deeds.stopped`, `Deeds.pending` -- deeds of the host take no stop back;
* `deeds_after_of_isStopped` -- after a stop no task has its turn;
* `runTasks_of_pending`, `tick_of_pending` -- no task has its turn while a stop is pending;
* `StaysOver` -- the run goes on only where a flow is started;
* `stop_complete` -- what is left when a stop took place, in every run;
* `stop_honoured` -- a stop that is pending takes place, unless a flow is started.
-/

namespace InstrumentFlow.Engine

/-! ## 1. Stops outlast deeds -/

section

variable {closed stateless : Prop} {e e' : Engine}

theorem Deed.stopped (h : Deed closed stateless e e') (hi : Inv closed e)
    (hs : e.stopped = true) : e'.stopped = true := by
  cases h with
  | pace h => exact h.frame.stopped.trans hs
  | raise i component message =>
    exact (strokes_raised hi i component message).frame.stopped.trans hs
  | halt _ => rfl
  | setting he _ =>
    rw [he]
    exact hs
  | keep _ i component state =>
    unfold setHostState allocateProgress releaseProgress
    split
    · split <;> exact hs
    · split <;> exact hs

theorem Deeds.stopped (h : Deeds closed stateless e e') (hi : Inv closed e)
    (hs : e.stopped = true) : e'.stopped = true :=
  h.preserves (P := fun e => e.stopped = true) (fun _ _ hi h hs => h.stopped hi hs) hi hs

/-- A stop stays pending, but for the end of the run. -/
theorem Deed.pending (h : Deed closed stateless e e') (hi : Inv closed e)
    (hp : e.stopRequested = true) :
    e'.stopRequested = true ∨ (∀ i, e.instance? i = none) ∧ e' = e.halt := by
  cases h with
  | pace h => exact Or.inl (h.frame.stopRequested hp)
  | raise i component message =>
    have hraise : Strokes closed anybody e (e.raiseError i component message) :=
      strokes_raised hi i component _
    exact Or.inl (hraise.frame.stopRequested hp)
  | halt hl => exact Or.inr ⟨hl, rfl⟩
  | setting he _ =>
    rw [he]
    exact Or.inl hp
  | keep _ i component state =>
    refine Or.inl ?_
    unfold setHostState allocateProgress releaseProgress
    split
    · split <;> exact hp
    · split <;> exact hp

/-- **A stop stays pending**, or the run was brought to its end in the meantime. -/
theorem Deeds.pending (h : Deeds closed stateless e e') (hi : Inv closed e)
    (hp : e.stopRequested = true) :
    e'.stopRequested = true ∨ e'.stopped = true ∧ ∃ e₁, Deeds closed stateless e e₁
      ∧ (∀ i, e₁.instance? i = none) ∧ Deeds closed stateless e₁ e' := by
  induction h with
  | refl => exact Or.inl hp
  | @tail e₁ e₂ hs h ih =>
    have hi₁ := Deeds.inv hs hi
    rcases ih with hp₁ | ⟨hstopped, e₀, hbefore, hgone, hafter⟩
    · rcases h.pending hi₁ hp₁ with hp₂ | ⟨hgone, rfl⟩
      · exact Or.inl hp₂
      · exact Or.inr ⟨rfl, e₁, hs, hgone, .single h⟩
    · exact Or.inr ⟨h.stopped hi₁ hstopped, e₀, hbefore, hgone, hafter.tail h⟩

theorem Deeds.isStopped (h : Deeds closed stateless e e') (hi : Inv closed e)
    (hs : e.isStopped = true) : e'.isStopped = true := by
  unfold Engine.isStopped at hs ⊢
  rw [Bool.or_eq_true] at hs ⊢
  rcases hs with hs | hs
  · exact Or.inl (h.stopped hi hs)
  · rcases h.pending hi hs with hp | ⟨hp, _⟩
    · exact Or.inr hp
    · exact Or.inl hp

/-- Whoever was there is reported, if nobody is left. -/
theorem Deeds.reported (h : Deeds closed stateless e e') (hi : Inv closed e)
    (hn : ∀ i, e'.instance? i = none) {news : List Event} (hj : e'.journal = news ++ e.journal)
    {i : InstanceId} (hl : e.instance? i ≠ none) : .destroyed i ∈ news := by
  have hleaps : Leaps closed False stateless e e' := h.leaps
  obtain ⟨s, hs⟩ := Option.ne_none_iff_exists'.mp hl
  obtain ⟨news', hj', hreport⟩ := ((hleaps.course hi).changes hi).reported_news hi hs (hn i)
  rwa [List.append_cancel_right (hj.symm.trans hj')]

/-! ## 2. After a stop -/

/-- **A tick in which a stop is pending**, or after a stop, runs no task. -/
theorem tick_of_isStopped (hs : e.isStopped = true) (handler : Handler)
    (allowance : Option Nat) : e.tick handler allowance = endTick {} e := by
  have hidle : (!e.stopRequested && !e.stopped && e.host.isRunning) = false := by
    unfold isStopped at hs
    rw [Bool.or_eq_true] at hs
    rcases hs with hs | hs <;> simp [hs]
  unfold tick
  rw [hidle]
  rfl

theorem deeds_tick_of_isStopped (hi : Inv closed e) (hs : e.isStopped = true) (handler : Handler)
    (allowance : Option Nat) : Deeds closed stateless e (e.tick handler allowance).2 := by
  rw [tick_of_isStopped hs]
  exact deeds_endTick .refl hi {}

theorem deeds_runUntilIdle_of_isStopped (hi : Inv closed e) (hs : e.isStopped = true)
    (handler : Handler) (allowance : Option Nat) (maxTicks : Nat) :
    Deeds closed stateless e (runUntilIdle handler allowance maxTicks e).2 := by
  induction maxTicks generalizing e with
  | zero => exact .refl
  | succ maxTicks ih =>
    unfold runUntilIdle
    split
    · exact .refl
    · have htick : Deeds closed stateless e (e.tick handler allowance).2 :=
        deeds_tick_of_isStopped hi hs handler allowance
      exact htick.trans (ih (htick.inv hi) (htick.isStopped hi hs))

theorem deeds_move_of_isStopped (hi : Inv closed e) (hs : e.isStopped = true) (m : Move)
    (hf : m.startsFlow = false) (hm : closed → m.IsHarmless) (hk : stateless → m.KeepsNothing) :
    Deeds closed stateless e (e.move m) := by
  have htick (allowance : Option Nat) : Deeds closed stateless e (e.tick handler allowance).2 :=
    deeds_tick_of_isStopped hi hs handler allowance
  have hidle (allowance : Option Nat) (maxTicks : Nat) :
      Deeds closed stateless e (runUntilIdle handler allowance maxTicks e).2 :=
    deeds_runUntilIdle_of_isStopped hi hs handler allowance maxTicks
  cases hr : m.runsTasks with
  | false => exact deeds_move hi .refl m hf hr hm hk
  | true =>
    cases m with
    | order o =>
      obtain ⟨command, keepAs⟩ := o
      refine deeds_performOrder hi ?_
      cases command with
      | tick => exact htick _
      | runUntilIdle maxTicks => exact hidle _ maxTicks
      | _ => cases hr
    | tick allowance => exact htick allowance
    | idle allowance maxTicks => exact hidle allowance maxTicks
    | _ => cases hr

/-- **After a stop only deeds are done** until a flow is started. -/
theorem deeds_after_of_isStopped (hi : Inv closed e) (hs : e.isStopped = true) (moves : List Move)
    (hf : ∀ m ∈ moves, m.startsFlow = false) (hm : closed → ∀ m ∈ moves, m.IsHarmless)
    (hk : stateless → ∀ m ∈ moves, m.KeepsNothing) :
    Deeds closed stateless e (e.after moves) := by
  induction moves generalizing e with
  | nil => exact .refl
  | cons m moves ih =>
    have hmove : Deeds closed stateless e (e.move m) :=
      deeds_move_of_isStopped hi hs m (hf m List.mem_cons_self)
        (fun hc => hm hc m List.mem_cons_self) fun hst => hk hst m List.mem_cons_self
    exact hmove.trans (ih (hmove.inv hi) (hmove.isStopped hi hs)
      (fun m' hm' => hf m' (List.mem_cons_of_mem m hm'))
      (fun hc m' hm' => hm hc m' (List.mem_cons_of_mem m hm'))
      fun hst m' hm' => hk hst m' (List.mem_cons_of_mem m hm'))

end

/-! ## 3. Ticks in which a stop is asked for -/

/-- **No task has its turn while a stop is pending**: more turns change nothing. -/
theorem runTasks_of_pending (handler : Handler) {n m : Nat} (hle : n ≤ m)
    (allowance : Option Nat) (report : TickReport) {e : Engine}
    (hp : (runTasks handler n allowance report e).2.stopRequested = true) :
    runTasks handler m allowance report e = runTasks handler n allowance report e := by
  -- along the turns; both rows of turns go the same way until the stop is asked for
  induction n generalizing m allowance report e with
  | zero =>
    have hstop : e.stopRequested = true := hp
    cases m with
    | zero => rfl
    | succ m =>
      unfold runTasks
      rw [if_pos hstop]
  | succ n ih =>
    obtain ⟨m, rfl⟩ : ∃ k, m = k + 1 := ⟨m - 1, by omega⟩
    have hle : n ≤ m := by omega
    unfold runTasks at hp ⊢
    by_cases hstop : e.stopRequested = true
    · simp only [hstop, if_true]
    by_cases hspent : allowance = some 0
    · simp only [hstop, hspent, if_true]
    rw [if_neg hstop, if_neg hspent] at hp
    rw [if_neg hstop, if_neg hspent, if_neg hstop, if_neg hspent]
    dsimp only at hp ⊢
    cases hq : e.queue.tasks with
    | nil => rfl
    | cons t ts =>
      rw [hq] at hp
      dsimp only at hp ⊢
      split at hp
      · next hgone =>
        rw [if_pos hgone, if_pos hgone]
        exact ih hle _ _ hp
      next hlive =>
      rw [if_neg hlive, if_neg hlive]
      split at hp
      · next hstall => rw [if_pos hstall, if_pos hstall]
      next hready =>
      rw [if_neg hready, if_neg hready]
      cases hblock : e.debuggerBlocks t with
      | mk blocks e' =>
        rw [hblock] at hp
        cases blocks with
        | true => rfl
        | false =>
          dsimp only at hp ⊢
          split at hp
          · next hsingle => rw [if_pos hsingle, if_pos hsingle]
          next hmode =>
          rw [if_neg hmode, if_neg hmode]
          exact ih hle _ _ hp

/-- **A tick in which a stop is pending after some turns** ends the run after them. -/
theorem tick_of_pending (handler : Handler) {n : Nat} {allowance : Option Nat} {e : Engine}
    (hn : n = 0 ∨ e.stopped = false ∧ e.host.isRunning = true ∧ n ≤ e.queue.size)
    (hp : (runTasks handler n allowance {} e).2.stopRequested = true) :
    e.tick handler allowance = endTick (runTasks handler n allowance {} e).1
      (runTasks handler n allowance {} e).2 := by
  by_cases hstop : e.stopRequested = true
  · have hnone : runTasks handler n allowance {} e = ({}, e) :=
      runTasks_of_pending handler (Nat.zero_le n) allowance {} hstop
    have hs : e.isStopped = true := by simp [isStopped, hstop]
    rw [hnone, tick_of_isStopped hs]
  · rcases hn with rfl | ⟨hstopped, hrunning, hle⟩
    · exact absurd hp hstop
    have hgo : (!e.stopRequested && !e.stopped && e.host.isRunning) = true := by
      simp [hstop, hstopped, hrunning]
    unfold tick
    rw [if_pos hgo, runTasks_of_pending handler hle allowance {} hp]

/-! ## 4. A stop is complete -/

/-- **The run stays over**: until a flow is started no task has its turn and no step begins,
    whatever the host does. -/
def StaysOver (e : Engine) : Prop :=
  ∀ moves : List Move, (∀ m ∈ moves, m.startsFlow = false) →
    (e.after moves).stopped = true
    ∧ (∃ later, (e.after moves).journal = later ++ e.journal
        ∧ ∀ event ∈ later, event.isAct = false)
    ∧ ∀ handler allowance, ((e.after moves).tick handler allowance).1.executed = 0

theorem staysOver_of_stopped {e : Engine} (hi : Inv False e) (hs : e.stopped = true) :
    e.StaysOver := by
  intro moves hf
  have hstopped (e : Engine) (hs : e.stopped = true) : e.isStopped = true := by
    simp [isStopped, hs]
  have hdeeds : Deeds False False e (e.after moves) :=
    deeds_after_of_isStopped hi (hstopped e hs) moves hf False.elim False.elim
  obtain ⟨later, htold, hquiet⟩ := hdeeds.told hi
  refine ⟨hdeeds.stopped hi hs, ⟨later, htold.journal, hquiet⟩, fun handler allowance => ?_⟩
  rw [tick_of_isStopped (hstopped _ (hdeeds.stopped hi hs))]
  rfl

/-- **A stop is complete.** In every state of every run, also in the middle of steps, a shutdown
    ends the run, and so does the end of a tick in which a stop is pending after some of its turns,
    be it because it was pending before or because one of the tasks asked for it. No task has its
    turn after that one. The run stays over until a flow is started. -/
theorem stop_complete {d : Definition} {config : Config} {dispatcher : Dispatcher} {host : Host}
    {e₀ : Engine} (hb : build d config dispatcher host = .ok e₀) {e : Engine}
    (h : Leaps False False False e₀ e) :
    ((∃ news, WoundUp e e.shutdown news) ∧ e.shutdown.StaysOver)
    ∧ ∀ depth allowance n,
        (n = 0 ∨ e.stopped = false ∧ e.host.isRunning = true ∧ n ≤ e.queue.size) →
        (runTasks (handlerWithin depth) n allowance {} e).2.stopRequested = true →
        (∃ news, WoundUp (runTasks (handlerWithin depth) n allowance {} e).2
          (e.tick (handlerWithin depth) allowance).2 news)
        ∧ (e.tick (handlerWithin depth) allowance).2.StaysOver := by
  have h₀ : Inv False e₀ := inv_build hb False.elim
  have hi := h.inv h₀
  have hstays {e : Engine} (hi : Inv False e) {e' : Engine} {news : List Event}
      (hd : Deeds False False e e') (hw : WoundUp e e' news) : e'.StaysOver :=
    staysOver_of_stopped (hd.inv hi) hw.finished.stopped
  refine ⟨?_, fun depth allowance n hn hp => ?_⟩
  · obtain ⟨news, hw⟩ := woundUp_shutdown hi
    exact ⟨⟨news, hw⟩, hstays hi (deeds_shutdown .refl hi) hw⟩
  · have hturns : Leaps False False False e (runTasks (handlerWithin depth) n allowance {} e).2 :=
      leaps_runTasks (handlerLeaps_handlerWithin False depth) hi False.elim id .refl n allowance {}
    have hi' := hturns.inv hi
    rw [tick_of_pending (handlerWithin depth) hn hp]
    obtain ⟨news, hw⟩ := woundUp_endTick hi' hp
      (runTasks (handlerWithin depth) n allowance {} e).1
    exact ⟨⟨news, hw⟩, hstays hi' (deeds_endTick .refl hi' _) hw⟩

/-- A flow that ends while one of its components waits for fifty milliseconds. -/
def leavingDefinition : Definition :=
  { constants := [.undefined, .null, .int 50]
    flows :=
      [{ name := "main", inputFlags := [1]
         components :=
          [{ kind := .delay, properties := [{ instructions := [2, 0, 0, 224] }] },
           { kind := .start, outputs := [{ isSequence := true, connections := [⟨2, 0, true⟩] }] },
           { kind := .finish, inputs := [0] }] }] }

/-- The delay has begun, and the end of the flow is queued. -/
def leaving : Engine :=
  (built leavingDefinition {} .absent {}).after [.order ⟨.startFlow 0, none⟩, .tick none]

/-- The delay is taken up again and the flow ends: all is over after that tick. -/
theorem stop_complete_leaving :
    build leavingDefinition {} .absent {} = .ok (built leavingDefinition {} .absent {})
    ∧ (leaving.progress? ⟨0, 0⟩ 0).isSome = true
    ∧ (runTasks handler 2 none {} leaving).2.stopRequested = true
    ∧ (leaving.tick handler none).2.Over ∧ (leaving.tick handler none).2.StaysOver := by
  have hb : build leavingDefinition {} .absent {}
      = .ok (built leavingDefinition {} .absent {}) := rfl
  have h₀ : Inv False (built leavingDefinition {} .absent {}) := inv_build hb False.elim
  have hrun : Leaps False False False (built leavingDefinition {} .absent {}) leaving :=
    leaps_after h₀ False.elim id _ False.elim False.elim
  obtain ⟨hopen, hpending, hgo⟩ : (leaving.progress? ⟨0, 0⟩ 0).isSome = true
      ∧ (runTasks (handlerWithin nestingLimit) 2 none {} leaving).2.stopRequested = true
      ∧ leaving.stopped = false ∧ leaving.host.isRunning = true ∧ 2 ≤ leaving.queue.size := by
    decide +kernel
  obtain ⟨⟨news, hw⟩, hstays⟩ := (stop_complete hb hrun).2 nestingLimit none 2 (Or.inr hgo) hpending
  exact ⟨hb, hopen, hpending, hw.finished, hstays⟩

/-- The component of this host fails, which is fatal, ends the run itself, and means to go on
    afterwards. -/
def fleeingHost : Host :=
  { components :=
      [(900, [{ orders :=
                  [fun i component => ⟨.raiseError i component "broken", none⟩,
                   fun _ _ => ⟨.shutdown, none⟩]
                ending := .suspended }])] }

/-- The state before the tick in which the component does that. -/
def fleeing : Engine :=
  (built hostedDefinition {} .absent fleeingHost).after [.order ⟨.startFlow 0, none⟩]

/-- Not every tick in which a stop is asked for leaves the queue empty. -/
theorem not_over_after_asked :
    ¬ ∀ (d : Definition) (host : Host) (e₀ : Engine) (moves : List Move) (news : List Event),
      build d {} .absent host = .ok e₀ →
      ((e₀.after moves).move (.tick none)).journal = news ++ (e₀.after moves).journal →
      .stopAsked ∈ news → ((e₀.after moves).move (.tick none)).queue.tasks = [] := by
  intro h
  obtain ⟨hqueue, hbefore, hafter⟩ : (fleeing.move (.tick none)).queue.tasks ≠ []
      ∧ (fleeing.journal.any fun | .stopAsked => true | _ => false) = false
      ∧ ((fleeing.move (.tick none)).journal.any fun | .stopAsked => true | _ => false) = true := by
    decide +kernel
  have hb : build hostedDefinition {} .absent fleeingHost
      = .ok (built hostedDefinition {} .absent fleeingHost) := rfl
  obtain ⟨news, ht⟩ := told_move hb [.order ⟨.startFlow 0, none⟩] (.tick none)
  obtain ⟨event, hmem, he⟩ := ht.exists_of_any hbefore hafter
  cases event with
  | stopAsked =>
    exact hqueue (h hostedDefinition fleeingHost _ [.order ⟨.startFlow 0, none⟩] news hb ht.journal
      hmem)
  | _ => cases he

/-! ## 5. A stop that is pending -/

theorem stopRequested_endTick (report : TickReport) (e : Engine) :
    (endTick report e).2.stopRequested = false := by
  unfold endTick
  cases hp : e.stopRequested with
  | true => rfl
  | false => exact hp

section

variable {closed stateless : Prop} {e e₁ : Engine} (hi : Inv closed e)
  (hp : e.stopRequested = true) (h : Deeds closed stateless e e₁) (handler : Handler)
  (allowance : Option Nat)
include hi hp h

/-- From a pending stop to the end of the next tick only deeds are done. -/
theorem deeds_next_tick : Deeds closed stateless e (e₁.tick handler allowance).2 := by
  have hs : e₁.isStopped = true := h.isStopped hi (by simp [isStopped, hp])
  exact h.trans (deeds_tick_of_isStopped (h.inv hi) hs handler allowance)

theorem over_next_tick (hpending : e₁.stopRequested = true) :
    (e₁.tick handler allowance).2.Over := by
  have hs : e₁.isStopped = true := h.isStopped hi (by simp [isStopped, hp])
  rw [tick_of_isStopped hs]
  obtain ⟨_, hw⟩ := woundUp_endTick (h.inv hi) hpending {}
  exact hw.finished

theorem stopped_next_tick : (e₁.tick handler allowance).2.stopped = true := by
  rcases h.pending hi hp with hpending | ⟨hstopped, _⟩
  · exact (over_next_tick hi hp h handler allowance hpending).stopped
  · have hs : e₁.isStopped = true := by simp [isStopped, hstopped]
    have htick : Deeds closed stateless e₁ (e₁.tick handler allowance).2 :=
      deeds_tick_of_isStopped (h.inv hi) hs handler allowance
    exact htick.stopped (h.inv hi) hstopped

/-- Everybody who is there when a stop is pending is reported by the end of the next tick. -/
theorem reported_next_tick {news : List Event}
    (hj : (e₁.tick handler allowance).2.journal = news ++ e.journal) {i : InstanceId}
    (hl : e.instance? i ≠ none) : .destroyed i ∈ news := by
  rcases h.pending hi hp with hpending | ⟨hstopped, e₂, hbefore, hgone, hafter⟩
  · have hall : Deeds closed stateless e (e₁.tick handler allowance).2 :=
      deeds_next_tick hi hp h handler allowance
    exact hall.reported hi (over_next_tick hi hp h handler allowance hpending).gone hj hl
  -- the host brought the run to its end itself; what is reported until then stays in the journal
  · have hs : e₁.isStopped = true := by simp [isStopped, hstopped]
    have hrest : Deeds closed stateless e₂ (e₁.tick handler allowance).2 :=
      hafter.trans (deeds_tick_of_isStopped (h.inv hi) hs handler allowance)
    obtain ⟨earlier, hearlier, _⟩ := hbefore.told hi
    obtain ⟨later, hlater, _⟩ := hrest.told (hbefore.inv hi)
    have hnews : news = later ++ earlier := by
      refine List.append_cancel_right (hj.symm.trans ?_)
      rw [hlater.journal, hearlier.journal, List.append_assoc]
    rw [hnews]
    exact List.mem_append_right _ (hbefore.reported hi hgone hearlier.journal hl)

end

/-- **A stop that is pending takes place**, unless a flow is started. Whatever else the host does,
    by the end of the next tick everybody who was there is reported to be gone, no task has its turn
    and no step begins, and nothing is left. A start, even of a flow that there is not, takes the
    stop back: then everybody stays and keeps its tasks. -/
theorem stop_honoured {d : Definition} {config : Config} {dispatcher : Dispatcher} {host : Host}
    {e₀ : Engine} (hb : build d config dispatcher host = .ok e₀) {e : Engine}
    (h : Leaps False False False e₀ e) (hp : e.stopRequested = true) (calls : List Move)
    (hs : ∀ m ∈ calls, m.startsFlow = false) :
    (e.after calls).isStopped = true
    ∧ (∀ depth allowance, ∃ news,
        ((e.after calls).tick (handlerWithin depth) allowance).2.journal = news ++ e.journal
        ∧ (∀ event ∈ news, event.isAct = false)
        ∧ (∀ i, e.instance? i ≠ none → .destroyed i ∈ news)
        ∧ ((e.after calls).tick (handlerWithin depth) allowance).2.stopped = true
        ∧ ((e.after calls).tick (handlerWithin depth) allowance).2.stopRequested = false
        ∧ ((e.after calls).stopRequested = true →
          ((e.after calls).tick (handlerWithin depth) allowance).2.Over))
    ∧ ∀ depth flow, Restarts (e.after calls)
        (perform (handlerWithin depth) (.startFlow flow) (e.after calls)).2 := by
  have hi : Inv False e := h.inv (inv_build hb False.elim)
  have hstopped : e.isStopped = true := by simp [isStopped, hp]
  have hdeeds : Deeds False False e (e.after calls) :=
    deeds_after_of_isStopped hi hstopped calls hs False.elim False.elim
  have hi' := hdeeds.inv hi
  refine ⟨hdeeds.isStopped hi hstopped, fun depth allowance => ?_, fun depth flow => ?_⟩
  · have hall : Deeds False False e ((e.after calls).tick (handlerWithin depth) allowance).2 :=
      deeds_next_tick hi hp hdeeds _ allowance
    obtain ⟨news, htold, hquiet⟩ := hall.told hi
    refine ⟨news, htold.journal, hquiet,
      fun i hl => reported_next_tick hi hp hdeeds _ allowance htold.journal hl,
      stopped_next_tick hi hp hdeeds _ allowance, ?_, over_next_tick hi hp hdeeds _ allowance⟩
    rw [tick_of_isStopped (hdeeds.isStopped hi hstopped)]
    exact stopRequested_endTick _ _
  · exact upholds_replyOf (restarts_startFlow hi' flow)

/-- The state in which a delay was begun and a stop is pending. -/
def parting : Engine :=
  (built waitingDefinition {} .absent {}).after
    [.order ⟨.startFlow 0, none⟩, .tick none, .order ⟨.stop, none⟩]

/-- The delay is there, a stop is pending, and only after an attempt to start a flow that does not exist
    a step of the delay begins. -/
theorem parting_spec :
    parting.stopRequested = true ∧ (parting.instance? ⟨0, 0⟩).isSome = true
    ∧ (parting.journal.any fun event => event.stepped? == some ⟨⟨0, 0⟩, 0, true⟩) = false
    ∧ (((parting.after [.order ⟨.startFlow 1, none⟩]).move (.tick none)).journal.any
      fun event => event.stepped? == some ⟨⟨0, 0⟩, 0, true⟩) = true := by
  decide +kernel

/-- Time passes and the host pauses the debugger; with the next tick the delay is gone. -/
theorem stop_honoured_parting :
    build waitingDefinition {} .absent {} = .ok (built waitingDefinition {} .absent {})
    ∧ parting.stopRequested = true
    ∧ (∀ m ∈ [Move.pass 100000000, .order ⟨.pause, none⟩], m.startsFlow = false)
    ∧ ∃ news,
        ((parting.after [.pass 100000000, .order ⟨.pause, none⟩]).tick handler none).2.journal
          = news ++ parting.journal
        ∧ .destroyed ⟨0, 0⟩ ∈ news ∧ ∀ event ∈ news, event.isAct = false := by
  have hb : build waitingDefinition {} .absent {}
      = .ok (built waitingDefinition {} .absent {}) := rfl
  have h₀ : Inv False (built waitingDefinition {} .absent {}) := inv_build hb False.elim
  have hrun : Leaps False False False (built waitingDefinition {} .absent {}) parting :=
    leaps_after h₀ False.elim id _ False.elim False.elim
  have hs : ∀ m ∈ [Move.pass 100000000, .order ⟨.pause, none⟩], m.startsFlow = false := by
    simp [Move.startsFlow, Command.startsFlow]
  obtain ⟨hp, hlive, _⟩ := parting_spec
  obtain ⟨_, htick, _⟩ := stop_honoured hb hrun hp _ hs
  obtain ⟨news, hj, hquiet, hreported, _⟩ := htick nestingLimit none
  have hgone := hreported ⟨0, 0⟩ (Option.isSome_iff_ne_none.mp hlive)
  exact ⟨hb, hp, hs, news, hj, hgone, hquiet⟩

/-- Not everybody who is there when a stop is pending is kept from going on. -/
theorem not_quiet_after_stop :
    ¬ ∀ (d : Definition) (e₀ : Engine) (moves calls : List Move) (news : List Event),
      build d {} .absent {} = .ok e₀ → (e₀.after moves).stopRequested = true →
      (∀ m ∈ calls, m.runsTasks = false) →
      (((e₀.after moves).after calls).move (.tick none)).journal
        = news ++ (e₀.after moves).journal →
      ∀ t, (e₀.after moves).instance? t.instanceId ≠ none → .stepped t ∉ news := by
  intro h
  have hb : build waitingDefinition {} .absent {}
      = .ok (built waitingDefinition {} .absent {}) := rfl
  -- there is no flow 1
  obtain ⟨hp, hlive, hbefore, hnews⟩ := parting_spec
  have h₀ : Inv False (built waitingDefinition {} .absent {}) := inv_build hb False.elim
  have hi : Inv False parting := inv_after h₀ _ False.elim
  have hrun : Leaps False False False parting
      (parting.after [.order ⟨.startFlow 1, none⟩, .tick none]) :=
    leaps_after hi False.elim id _ False.elim False.elim
  obtain ⟨news, ht⟩ := hrun.told hi
  obtain ⟨event, hmem, he⟩ := ht.exists_of_any hbefore hnews
  cases event with
  | stepped t =>
    obtain rfl : t = ⟨⟨0, 0⟩, 0, true⟩ := by simpa [Event.stepped?] using he
    refine h waitingDefinition _ _ [.order ⟨.startFlow 1, none⟩] news hb hp ?_ ht.journal
      ⟨⟨0, 0⟩, 0, true⟩ (Option.isSome_iff_ne_none.mp hlive) hmem
    simp [Move.runsTasks, Command.runsTasks]
  | _ => cases he

end InstrumentFlow.Engine
