import InstrumentFlow.Proofs.Queue

/-!
# What a tick runs

A tick runs as many tasks as were queued when it began. It runs just those, unless some of them are
dropped with their instance: then tasks that came in the meantime have their turn in their place.

* `Tallies.late_turns` -- how many of the tasks that came have had their turn, from the number of
  turns and of tasks that were dropped before theirs;
* `told_runTasks`, `told_tick` -- the turns of a tick are as many as its report says, and no step
  begins out of turn;
* `turns_of_tick` -- what has its turn in a tick, in every state of every run.
-/

namespace InstrumentFlow

/-! ## 1. Turns of tasks that came in the meantime -/

theorem length_withFate (ks : List Ticket) :
    (withFate .queued ks).length + (withFate .taken ks).length + (withFate .dropped ks).length
      = ks.length := by
  induction ks with
  | nil => rfl
  | cons k ks ih =>
    rw [withFate_cons, withFate_cons, withFate_cons, List.length_cons, ← ih]
    cases k.fate <;> simp <;> omega

/-- **Turns of tasks that came in the meantime**: they make up for the tasks in front of them that
    were dropped. -/
theorem Tallies.late_turns {early late : List Ticket} {queued taken : List Task}
    (h : Tallies (early ++ late) queued taken) :
    (withFate .taken late).length
      = taken.length + (withFate .dropped early).length - early.length := by
  have hearly := length_withFate early
  have htaken : (withFate .taken early).length + (withFate .taken late).length
      = taken.length := by
    rw [← List.length_append, ← withFate_append, h.taken_eq]
  obtain ⟨_, _, hbetween⟩ := List.pairwise_append.mp h.order
  -- as long as one of the first is queued, none of the others has its turn
  cases hqueued : withFate .queued early with
  | nil =>
    rw [hqueued, List.length_nil] at hearly
    omega
  | cons t ts =>
    have hnone : withFate .taken late = [] := by
      have hmem : t ∈ withFate .queued early := hqueued ▸ List.mem_cons_self
      obtain ⟨k, hk, _⟩ := List.mem_map.mp hmem
      obtain ⟨hk, hfate⟩ := List.mem_filter.mp hk
      exact withFate_eq_nil fun k' hk' => hbetween k hk k' hk' (of_decide_eq_true hfate)
    rw [hnone, List.length_nil] at htaken ⊢
    omega

namespace Engine

/-! ## 2. Rows of turns -/

/-- **A row of turns**: so many tasks have their turn, and no step begins out of turn. -/
def Turns (count : Nat) (e e' : Engine) : Prop :=
  ∃ news, Told e e' news ∧ (steps news).Sublist (takes news) ∧ (takes news).length = count

namespace Turns

theorem trans {m n : Nat} {e e' e'' : Engine} (h : Turns m e e') (h' : Turns n e' e'') :
    Turns (m + n) e e'' := by
  obtain ⟨news, ht, hsteps, hcount⟩ := h
  obtain ⟨news', ht', hsteps', hcount'⟩ := h'
  refine ⟨news' ++ news, ht.trans ht', ?_, ?_⟩
  · unfold steps takes at hsteps hsteps' ⊢
    rw [picks_append, picks_append]
    exact hsteps.append hsteps'
  · unfold takes at hcount hcount' ⊢
    rw [picks_append, List.length_append, hcount, hcount']

theorem rests {e e' : Engine} (h : Rests e e') : Turns 0 e e' := by
  obtain ⟨news, ht, hn⟩ := h
  obtain ⟨htakes, hsteps⟩ := starts_eq_nil hn
  exact ⟨news, ht, hsteps ▸ List.nil_sublist _, congrArg List.length htakes⟩

theorem refl (e : Engine) : Turns 0 e e := rests ⟨[], .silent rfl rfl id, fun _ h => nomatch h⟩

/-- The turn of a task whose instance is gone. -/
theorem discard {e : Engine} {t : Task} {ts : List Task} (hq : e.queue.tasks = t :: ts) :
    Turns 1 e ((e.takeTask t).record (.discarded t)) := by
  have hrecord : Told (e.takeTask t) ((e.takeTask t).record (.discarded t)) [.discarded t] :=
    .record _ rfl (fun _ h => nomatch h) rfl
  exact ⟨_, (told_takeTask hq).trans hrecord, List.nil_sublist _, rfl⟩

theorem turn {closed : Prop} {e : Engine} (hi : Inv closed e) (hh : e.definition.Hostless)
    (handler : Handler) {t : Task} {ts : List Task} (hq : e.queue.tasks = t :: ts) :
    Turns 1 e ((e.takeTask t).runTask handler t) := by
  obtain ⟨news, ht, htakes, hsteps⟩ := told_turn hi hh handler hq
  exact ⟨news, ht, htakes ▸ hsteps, congrArg List.length htakes⟩

theorem debuggerBlocks (e : Engine) (t : Task) : Turns 0 e (e.debuggerBlocks t).2 := by
  have hb := debuggerBlocks_snd e t
  refine rests ⟨[], .silent (by rw [hb]) (by rw [hb]) fun hs => ?_, fun _ h => nomatch h⟩
  rw [hb]
  exact hs

theorem shutdown {closed : Prop} {e : Engine} (hi : Inv closed e) : Turns 0 e e.shutdown :=
  rests (rests_shutdown hi)

theorem endTick {closed : Prop} {e : Engine} (hi : Inv closed e) (report : TickReport) :
    Turns 0 e (endTick report e).2 := by
  have hend (e : Engine) : Turns 0 e (e.record .tickEnded) :=
    rests ⟨[.tickEnded], .record _ rfl (fun _ h => nomatch h) rfl,
      fun _ h => List.mem_singleton.mp h ▸ rfl⟩
  unfold Engine.endTick
  dsimp only
  split
  · exact (shutdown hi).trans (hend _)
  · exact hend e

end Turns

/-! ## 3. Ticks -/

section

variable {closed : Prop} {e : Engine}

/-- **The tasks of a tick** have their turn one after the other, and the report counts them. -/
theorem turns_runTasks (hi : Inv closed e) (hh : e.definition.Hostless) (handler : Handler)
    (count : Nat) (allowance : Option Nat) (report : TickReport) :
    ∃ n, Turns n e (runTasks handler count allowance report e).2
      ∧ report.executed + report.discarded + n
        = (runTasks handler count allowance report e).1.executed
          + (runTasks handler count allowance report e).1.discarded := by
  -- along the turns: each of them counts once, on either side
  induction count generalizing allowance report e with
  | zero => exact ⟨0, .refl e, rfl⟩
  | succ count ih =>
    cases headway handler count allowance report e with
    | rest report' hx hd hr =>
      rw [hr, hx, hd]
      exact ⟨0, .refl e, rfl⟩
    | @drop t ts hq hn hr =>
      have hleap : Leaps closed True True e ((e.takeTask t).record (.discarded t)) :=
        .single (.discard hq hn)
      obtain ⟨n, hturns, hcount⟩ := ih (hleap.inv hi) (hleap.definition hi ▸ hh)
        (allowance.map (· - 1)) { report with discarded := report.discarded + 1 }
      rw [hr]
      refine ⟨1 + n, (Turns.discard hq).trans hturns, ?_⟩
      rw [← hcount]
      dsimp only
      omega
    | hold t hr =>
      rw [hr]
      exact ⟨0, .debuggerBlocks e t, rfl⟩
    | @run t ts hp hq _ hr =>
      have hblock : Leaps closed True True e (e.debuggerBlocks t).2 :=
        leaps_debuggerBlocks hi .refl t
      have hi' := hblock.inv hi
      have hh' : (e.debuggerBlocks t).2.definition.Hostless := hblock.definition hi ▸ hh
      have hq' := (tasks_debuggerBlocks e t).trans hq
      have hleap : Leaps closed True True e
          (((e.debuggerBlocks t).2.takeTask t).runTask handler t) :=
        hblock.tail (.task hh' ((stopRequested_debuggerBlocks e t).trans hp) hq')
      have hturn := (Turns.debuggerBlocks e t).trans (Turns.turn hi' hh' handler hq')
      generalize ((e.debuggerBlocks t).2.takeTask t).runTask handler t = e₁ at hr hleap hturn
      rcases hr with ⟨_, hr⟩ | hr
      · have hpause : Turns 0 e₁ { e₁ with debugger := some .paused } :=
          .rests ⟨[], .silent rfl rfl id, List.forall_mem_nil _⟩
        rw [hr]
        refine ⟨_, hturn.trans hpause, ?_⟩
        dsimp only
        omega
      · obtain ⟨n, hturns, hcount⟩ := ih (hleap.inv hi) (hleap.definition hi ▸ hh)
          (allowance.map (· - 1)) { report with executed := report.executed + 1 }
        rw [hr]
        refine ⟨_, hturn.trans hturns, ?_⟩
        rw [← hcount]
        dsimp only
        omega

/-- **A tick is a row of turns**, as many as its report counts. -/
theorem turns_tick {handler : Handler} (hl : HandlerLeaps closed handler) (hi : Inv closed e)
    (hh : e.definition.Hostless) (allowance : Option Nat) :
    Turns ((e.tick handler allowance).1.executed + (e.tick handler allowance).1.discarded)
      e (e.tick handler allowance).2 := by
  unfold tick
  split
  · obtain ⟨n, hturns, hcount⟩ := turns_runTasks hi hh handler e.queue.size allowance {}
    have hrun : Leaps closed True True e (runTasks handler e.queue.size allowance {} e).2 :=
      leaps_runTasks hl hi (fun _ => hh) id .refl _ _ _
    have hend := Turns.endTick (hrun.inv hi) (runTasks handler e.queue.size allowance {} e).1
    have hall := hturns.trans hend
    rw [Nat.add_zero] at hall
    rw [show 0 + 0 + n = n from by omega] at hcount
    exact hcount ▸ hall
  · exact Turns.endTick hi {}

end

/-! ## 4. Every run -/

/-- **What has its turn in a tick.** The docket of the tick has the tasks that were queued when it
    began in front, and behind them those that came in the meantime. As many tasks have their turn
    as the report counts, no more than were queued, each of them once, and no step begins out of
    turn. Tasks that came in the meantime have their turn only in the place of some that were
    dropped, one for each; where none of the first is dropped all the others are still queued, but
    those that are dropped themselves. -/
theorem turns_of_tick {d : Definition} {config : Config} {dispatcher : Dispatcher} {host : Host}
    {e₀ : Engine} (hb : build d config dispatcher host = .ok e₀) (hh : d.Hostless)
    (moves : List Move) (allowance : Option Nat) :
    ∃ news early late,
      Accounted (e₀.after moves) ((e₀.after moves).move (.tick allowance)) news
      ∧ docket (e₀.after moves).queue.tasks news = early ++ late
      ∧ early.map Ticket.task = (e₀.after moves).queue.tasks
      ∧ late.map Ticket.task = pushes news
      ∧ (takes news).length = ((e₀.after moves).tick handler allowance).1.executed
          + ((e₀.after moves).tick handler allowance).1.discarded
      ∧ (takes news).length ≤ (e₀.after moves).queue.size
      ∧ (steps news).Sublist (takes news)
      ∧ (withFate .taken late).length
        = (takes news).length + (withFate .dropped early).length - (e₀.after moves).queue.size
      ∧ (withFate .dropped early = [] → withFate .taken late = []) := by
  have h₀ : Inv False e₀ := inv_build hb False.elim
  have hi : Inv False (e₀.after moves) := inv_after h₀ moves False.elim
  have hrun : Leaps False False False e₀ (e₀.after moves) :=
    leaps_after h₀ False.elim id moves False.elim False.elim
  have hdefinition : (e₀.after moves).definition = d := by
    rw [hrun.definition h₀, (build_eq_ok_iff.mp hb).2]
    rfl
  obtain ⟨hcapacity, hsize⟩ := size_le_after hb moves
  obtain ⟨news, ht, hsteps, hcount⟩ := turns_tick (handlerLeaps_handler False) hi
    (hdefinition ▸ hh) allowance
  have hle := executed_add_discarded_le_tick handler allowance (e₀.after moves)
  have hlisted := Turnovers.task_docket (e₀.after moves).queue.tasks news
  obtain ⟨early, late, hsplit, hearly, hlate⟩ := List.map_eq_append_iff.mp hlisted
  have hlength : early.length = (e₀.after moves).queue.size := by
    rw [← List.length_map Ticket.task, hearly]
    rfl
  have hturns := (hsplit ▸ ht.turnovers.tallies).late_turns
  rw [hlength] at hturns
  refine ⟨news, early, late, ht.accounted (hcapacity ▸ hsize), hsplit, hearly, hlate, hcount,
    hcount ▸ hle, hsteps, hturns, fun hnone => ?_⟩
  rw [hnone, List.length_nil, hcount] at hturns
  exact List.eq_nil_of_length_eq_zero (by omega)

/-- A flow that passes a pulse on from tick to tick, besides a call of a flow that calls another
    one; that one ends while a task of it is still queued. -/
def overtakingDefinition : Definition :=
  { flows :=
      [{ name := "main", inputFlags := [1, 1, 1, 1]
         components :=
          [{ kind := .callAction, payload := [1, 0] },
           { kind := .start, outputs := [{ isSequence := true, connections := [⟨2, 0, true⟩] }] },
           { kind := .noop, inputs := [0]
             outputs := [{ isSequence := true, connections := [⟨3, 1, true⟩] }] },
           { kind := .noop, inputs := [1]
             outputs := [{ isSequence := true, connections := [⟨4, 2, true⟩] }] },
           { kind := .noop, inputs := [2]
             outputs := [{ isSequence := true, connections := [⟨5, 3, true⟩] }] },
           { kind := .noop, inputs := [3] }] },
       { name := "middle", components := [{ kind := .callAction, payload := [2, 0] }] },
       { name := "inner", inputFlags := [1, 1]
         components :=
          [{ kind := .start
             outputs := [{ isSequence := true, connections := [⟨1, 0, true⟩, ⟨2, 1, true⟩] }] },
           { kind := .finish, inputs := [0] },
           { kind := .noop, inputs := [1] }] }] }

/-- The moves up to the tick in which the inner flow ends. -/
def overtakingMoves : List Move :=
  [.order ⟨.startFlow 0, none⟩, .tick none, .tick none, .tick none]

/-- The state before that tick. -/
def overtaking : Engine := (built overtakingDefinition {} .absent {}).after overtakingMoves

/-- In that tick three tasks have their turn, and one of them came in the meantime. -/
theorem turns_of_tick_overtaking :
    build overtakingDefinition {} .absent {} = .ok (built overtakingDefinition {} .absent {})
    ∧ overtakingDefinition.Hostless
    ∧ ∃ news early late,
        Accounted overtaking (overtaking.move (.tick none)) news
        ∧ docket overtaking.queue.tasks news = early ++ late
        ∧ early.map Ticket.task = overtaking.queue.tasks
        ∧ (takes news).length = 3
        ∧ (withFate .taken late).length = (withFate .dropped early).length := by
  have hb : build overtakingDefinition {} .absent {}
      = .ok (built overtakingDefinition {} .absent {}) := rfl
  have hh : overtakingDefinition.Hostless := by decide +kernel
  have hstate : (built overtakingDefinition {} .absent {}).after overtakingMoves = overtaking := rfl
  have hturns := turns_of_tick hb hh overtakingMoves none
  rw [hstate] at hturns
  obtain ⟨news, early, late, haccount, hsplit, hearly, _, hcount, _, _, hlate, _⟩ := hturns
  have hthree : (overtaking.tick handler none).1.executed
      + (overtaking.tick handler none).1.discarded = 3 := by decide +kernel
  have hsize : overtaking.queue.size = 3 := by decide +kernel
  rw [hthree] at hcount
  rw [hcount, hsize] at hlate
  exact ⟨hb, hh, news, early, late, haccount, hsplit, hearly, hcount, by omega⟩

/-- Not every step of a tick was queued when the tick began. -/
theorem not_queued_before_tick :
    ¬ ∀ (d : Definition) (e₀ : Engine) (moves : List Move) (news : List Event),
      d.Hostless → build d {} .absent {} = .ok e₀ →
      ((e₀.after moves).move (.tick none)).journal = news ++ (e₀.after moves).journal →
      ∀ t, .stepped t ∈ news → t ∈ (e₀.after moves).queue.tasks := by
  intro h
  have hbefore : (overtaking.journal.any
      fun event => event.stepped? == some ⟨⟨0, 0⟩, 5, false⟩) = false := by decide +kernel
  have hafter : ((overtaking.move (.tick none)).journal.any
      fun event => event.stepped? == some ⟨⟨0, 0⟩, 5, false⟩) = true := by decide +kernel
  have hnone : (⟨⟨0, 0⟩, 5, false⟩ : Task) ∉ overtaking.queue.tasks := by decide +kernel
  have hb : build overtakingDefinition {} .absent {}
      = .ok (built overtakingDefinition {} .absent {}) := rfl
  have hstate : (built overtakingDefinition {} .absent {}).after overtakingMoves = overtaking := rfl
  obtain ⟨news, ht⟩ := told_move hb overtakingMoves (.tick none)
  have hqueued := h overtakingDefinition _ overtakingMoves news (by decide +kernel) hb ht.journal
  rw [hstate] at ht hqueued
  obtain ⟨event, hmem, he⟩ := ht.exists_of_any hbefore hafter
  cases event with
  | stepped t =>
    obtain rfl : t = ⟨⟨0, 0⟩, 5, false⟩ := by simpa [Event.stepped?] using he
    exact hnone (hqueued _ hmem)
  | _ => cases he

end Engine

end InstrumentFlow
