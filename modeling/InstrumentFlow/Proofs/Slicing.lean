import InstrumentFlow.Proofs.Queue.Live
import InstrumentFlow.Proofs.Slicing.Turn
import InstrumentFlow.Proofs.Ticks
import Mathlib.Logic.Function.Iterate

/-!
# Ticks of any length

A run is a row of turns, and ticks only cut it into slices. Where no component waits for a moment or
for somebody outside, it makes no difference where they cut it.

* `Alike` -- states that differ in the moment and in the ends of ticks only;
* `turn`, `Smooth` -- the turn of the first task; states in which nothing waits or holds it back;
* `runTasks_smooth`, `tick_smooth` -- a tick is a row of turns, and the pending end of the run;
* `Slice`, `sliced`, `sliced_alike` -- ticks of any lengths, one after the other, are like the same
  number of turns in a row;
* `sliced_agree` -- **two ways to slice a run agree**, as far as both have come.
-/

namespace InstrumentFlow

def Event.isTickEnd : Event → Bool
  | tickEnded => true
  | _ => false

namespace Engine

/-! ## 1. States that are alike -/

/-- What happened, but for the ends of ticks. -/
def history (e : Engine) : List Event := e.journal.filter fun event => !event.isTickEnd

theorem history_shift (past : List Event) (now : Nat) (e : Engine) :
    (e.shift past now).history = e.history ++ past.filter fun event => !event.isTickEnd :=
  List.filter_append _ _

/-- **States that are alike** differ in the moment only, and the same led to them, but for the ends
    of ticks. -/
structure Alike (e e' : Engine) : Prop where
  bare : e.bare = e'.bare
  history : e.history = e'.history

namespace Alike

variable {e e' e'' : Engine}

theorem refl (e : Engine) : Alike e e := ⟨rfl, rfl⟩

theorem symm (h : Alike e e') : Alike e' e := ⟨h.bare.symm, h.history.symm⟩

theorem trans (h : Alike e e') (h' : Alike e' e'') : Alike e e'' :=
  ⟨h.bare.trans h'.bare, h.history.trans h'.history⟩

/-- Whatever takes no notice of the past and of the moment leaves alike what was alike. -/
theorem map {f : Engine → Engine} (h : Alike e e')
    (hf : ∀ past now, f (e.bare.shift past now) = (f e.bare).shift past now) :
    Alike (f e) (f e') := by
  have he : f e = (f e.bare).shift e.journal e.clock := hf e.journal e.clock
  have he' : f e' = (f e.bare).shift e'.journal e'.clock := by
    rw [← hf, h.bare, shift_bare]
  refine ⟨?_, ?_⟩
  · rw [he, he', bare_shift, bare_shift]
  · rw [he, he', history_shift, history_shift]
    exact congrArg _ h.history

theorem stopRequested (h : Alike e e') : e.stopRequested = e'.stopRequested := by
  show e.bare.stopRequested = e'.bare.stopRequested
  rw [h.bare]

theorem stopped (h : Alike e e') : e.stopped = e'.stopped := by
  show e.bare.stopped = e'.bare.stopped
  rw [h.bare]

end Alike

/-! ## 2. Turns -/

/-- The turn of the first task, if there is one. -/
def turn (handler : Handler) (e : Engine) : Engine :=
  match e.queue.tasks with
  | [] => e
  | t :: _ => (e.takeTask t).runTask handler t

/-- A stop that is pending takes place. -/
def settle (e : Engine) : Engine := if e.stopRequested then e.shutdown else e

theorem turn_cons (handler : Handler) {e : Engine} {t : Task} {ts : List Task}
    (hq : e.queue.tasks = t :: ts) : e.turn handler = (e.takeTask t).runTask handler t := by
  unfold turn
  rw [hq]

theorem settle_of_not {e : Engine} (h : e.stopRequested = false) : e.settle = e := by
  unfold settle
  rw [h]
  rfl

theorem turn_shift {e : Engine} (hd : e.definition.Only Kind.isTimeless) (handler : Handler)
    (past : List Event) (now : Nat) :
    (e.shift past now).turn handler = (e.turn handler).shift past now := by
  unfold turn
  rw [queue_shift]
  split
  · rfl
  · next t ts _ => exact runTask_shift (e := e.takeTask t) hd handler t

theorem settle_shift (e : Engine) (past : List Event) (now : Nat) :
    (e.shift past now).settle = e.settle.shift past now := by
  unfold settle
  rw [stopRequested_shift, shutdown_shift]
  split <;> rfl

/-- **A smooth run**: no component waits, every queued task has its instance, and no debugger holds
    tasks back. -/
structure Smooth (e : Engine) : Prop where
  inv : Inv False e
  timeless : e.definition.Only Kind.isTimeless
  allLive : e.AllLive
  detached : e.debugger = none

namespace Smooth

variable {e : Engine}

/-- **A turn goes smoothly.** -/
theorem turn (h : e.Smooth) (handler : Handler) : (e.turn handler).Smooth := by
  unfold Engine.turn
  split
  · exact h
  next t ts hq =>
  have htake : Touches False e (e.takeTask t) := touches_takeTask t
  have hi := htake.inv h.inv
  have hcourse : Course False e ((e.takeTask t).runTask handler t) :=
    htake.course.trans (course_runTask hi h.timeless.hostless handler t)
  refine ⟨hcourse.inv h.inv, ?_, ?_, ?_⟩
  · rw [(hcourse.changes h.inv).definition]
    exact h.timeless
  · exact allLive_runTask handler hi h.timeless.hostless (h.allLive.takeTask t) t
  · obtain ⟨_, hframe⟩ :=
      frame_runTask hi handler (t := t) fun c hc => only_componentOf? h.timeless.hostless hc
    exact hframe.debugger.trans h.detached

theorem turns (h : e.Smooth) (handler : Handler) (n : Nat) :
    ((Engine.turn handler)^[n] e).Smooth := by
  induction n with
  | zero => exact h
  | succ n ih =>
    rw [Function.iterate_succ_apply']
    exact ih.turn handler

theorem settle (h : e.Smooth) : e.settle.Smooth := by
  unfold Engine.settle
  split
  · have hleaps : Leaps False True False e e.shutdown := leaps_shutdown h.inv .refl
    have hfree : Paces False anybody e (e.forest.roots.foldl (fun e root => e.free root) e) :=
      paces_freeAll h.inv .refl e.forest.roots
    have hdebugger : e.shutdown.debugger = e.debugger := hfree.frame.debugger
    refine ⟨hleaps.inv h.inv, ?_, fun _ ht => (nomatch ht), hdebugger.trans h.detached⟩
    rw [hleaps.definition h.inv]
    exact h.timeless
  · exact h

theorem of_alike {e' : Engine} (h : e.Smooth) (ha : Alike e e') : e'.Smooth := by
  have hbare : e.bare.Smooth :=
    ⟨⟨h.inv.sound, h.inv.fits, False.elim⟩, h.timeless, h.allLive, h.detached⟩
  rw [ha.bare] at hbare
  exact ⟨⟨hbare.inv.sound, hbare.inv.fits, False.elim⟩, hbare.timeless, hbare.allLive,
    hbare.detached⟩

end Smooth

namespace Alike

variable {e e' : Engine}

theorem turns (h : Alike e e') (hs : e.Smooth) (handler : Handler) (n : Nat) :
    Alike ((turn handler)^[n] e) ((turn handler)^[n] e') := by
  induction n with
  | zero => exact h
  | succ n ih =>
    rw [Function.iterate_succ_apply', Function.iterate_succ_apply']
    exact ih.map (turn_shift (e := ((turn handler)^[n] e).bare) (hs.turns handler n).timeless
      handler)

theorem settle (h : Alike e e') : Alike e.settle e'.settle := h.map (settle_shift e.bare)

end Alike

/-! ## 3. Ticks -/

theorem debuggerBlocks_detached {e : Engine} (h : e.debugger = none) (t : Task) :
    e.debuggerBlocks t = (false, e) := by
  unfold debuggerBlocks
  rw [h]

/-- **The tasks of a tick are a row of turns**, of which the report tells the number. -/
theorem runTasks_smooth {e : Engine} (hs : e.Smooth) (handler : Handler) (count : Nat)
    (allowance : Option Nat) (report : TickReport) :
    ∃ n, (runTasks handler count allowance report e).2 = (turn handler)^[n] e
      ∧ (runTasks handler count allowance report e).1.executed = report.executed + n
      ∧ (runTasks handler count allowance report e).1.discarded = report.discarded := by
  induction count generalizing allowance report e with
  | zero => exact ⟨0, rfl, rfl, rfl⟩
  | succ count ih =>
    cases headway handler count allowance report e with
    | rest _ hx hd hr =>
      rw [hr]
      exact ⟨0, rfl, hx, hd⟩
    | drop hq hn _ =>
      -- every queued task has its instance
      exact absurd hn (hs.allLive _ (hq ▸ List.mem_cons_self))
    | hold t hr =>
      rw [hr, debuggerBlocks_detached hs.detached]
      exact ⟨0, rfl, rfl, rfl⟩
    | @run t ts _ hq _ hr =>
      rw [debuggerBlocks_detached hs.detached] at hr
      dsimp only at hr
      rw [← turn_cons handler hq] at hr
      rcases hr with ⟨hmode, _⟩ | hr
      · cases hmode.symm.trans (hs.turn handler).detached
      · obtain ⟨n, hstate, hexecuted, hdiscarded⟩ := ih (hs.turn handler) (allowance.map (· - 1))
          { report with executed := report.executed + 1 }
        rw [hr]
        refine ⟨n + 1, ?_, ?_, hdiscarded⟩
        · rw [hstate, Function.iterate_succ_apply]
        · rw [hexecuted]
          dsimp only
          omega

theorem endTick_alike (report : TickReport) (e : Engine) : Alike (endTick report e).2 e.settle :=
  ⟨rfl, rfl⟩

/-- **A tick is a row of turns, and then a pending stop takes place.** No task is discarded, and
    once the run has stopped no turn is left. -/
theorem tick_smooth {e : Engine} (hs : e.Smooth) (handler : Handler) (allowance : Option Nat) :
    Alike (e.tick handler allowance).2
        ((turn handler)^[(e.tick handler allowance).1.executed] e).settle
      ∧ (e.tick handler allowance).1.discarded = 0
      ∧ (e.stopped = true → (e.tick handler allowance).1.executed = 0) := by
  unfold tick
  split
  · next hgo =>
    obtain ⟨n, hstate, hexecuted, hdiscarded⟩ :=
      runTasks_smooth hs handler e.queue.size allowance {}
    have hcount : (endTick (runTasks handler e.queue.size allowance {} e).1
        (runTasks handler e.queue.size allowance {} e).2).1.executed = n :=
      hexecuted.trans (Nat.zero_add n)
    refine ⟨?_, hdiscarded, fun hstopped => ?_⟩
    · dsimp only
      rw [hcount, ← hstate]
      exact endTick_alike _ _
    · rw [hstopped] at hgo
      simp at hgo
  · exact ⟨endTick_alike {} e, rfl, fun _ => rfl⟩

/-! ## 4. Slices -/

/-- When a tick comes, and how many tasks its time reaches for. -/
structure Slice where
  clock : Nat
  allowance : Option Nat

/-- One slice: a tick at its moment. -/
def slice (handler : Handler) (s : Slice) (e : Engine) : TickReport × Engine :=
  { e with clock := s.clock }.tick handler s.allowance

/-- Ticks one after the other. Gives how many tasks they ran. -/
def sliced (handler : Handler) : List Slice → Engine → Nat × Engine
  | [], e => (0, e)
  | s :: slices, e =>
    let (report, e) := slice handler s e
    let (count, e) := sliced handler slices e
    (report.executed + count, e)

theorem sliced_cons (handler : Handler) (s : Slice) (slices : List Slice) (e : Engine) :
    sliced handler (s :: slices) e
      = ((slice handler s e).1.executed + (sliced handler slices (slice handler s e).2).1,
        (sliced handler slices (slice handler s e).2).2) := rfl

section

variable {e : Engine} (hs : e.Smooth) (handler : Handler)
include hs

theorem slice_smooth (s : Slice) :
    Alike (slice handler s e).2
        ((turn handler)^[(slice handler s e).1.executed] e).settle
      ∧ (e.stopped = true → (slice handler s e).1.executed = 0) := by
  have hmoment : Alike { e with clock := s.clock } e := ⟨rfl, rfl⟩
  have hs' := hs.of_alike hmoment.symm
  obtain ⟨htick, _, hnone⟩ := tick_smooth hs' handler s.allowance
  exact ⟨htick.trans (hmoment.turns hs' handler _).settle, hnone⟩

/-- After its end a run has empty slices only. -/
theorem sliced_stopped (hstopped : e.stopped = true) (hstop : e.stopRequested = false)
    (slices : List Slice) :
    (sliced handler slices e).1 = 0 ∧ Alike (sliced handler slices e).2 e := by
  induction slices generalizing e with
  | nil => exact ⟨rfl, .refl e⟩
  | cons s slices ih =>
    obtain ⟨hslice, hnone⟩ := slice_smooth hs handler s
    rw [hnone hstopped, Function.iterate_zero_apply, settle_of_not hstop] at hslice
    obtain ⟨hcount, hrest⟩ := ih (hs.of_alike hslice.symm) (hslice.stopped.trans hstopped)
      (hslice.stopRequested.trans hstop)
    rw [sliced_cons]
    exact ⟨by rw [hcount, hnone hstopped], hrest.trans hslice⟩

/-- **Ticks of any length are like the same number of turns in a row**, with the end of the run
    behind them if a stop is pending. -/
theorem sliced_alike {slices : List Slice} (hne : slices ≠ []) :
    Alike (sliced handler slices e).2 ((turn handler)^[(sliced handler slices e).1] e).settle := by
  induction slices generalizing e with
  | nil => exact absurd rfl hne
  | cons s slices ih =>
    obtain ⟨hslice, _⟩ := slice_smooth hs handler s
    have hturns := hs.turns handler (slice handler s e).1.executed
    have hsmooth := hturns.settle.of_alike hslice.symm
    rw [sliced_cons]
    dsimp only
    by_cases hstop : ((turn handler)^[(slice handler s e).1.executed] e).stopRequested = true
    · -- the run has come to its end
      have hshutdown : ((turn handler)^[(slice handler s e).1.executed] e).settle
          = ((turn handler)^[(slice handler s e).1.executed] e).shutdown := by
        unfold settle
        rw [hstop]
        rfl
      rw [hshutdown] at hslice
      obtain ⟨hcount, hrest⟩ := sliced_stopped hsmooth handler hslice.stopped
        hslice.stopRequested slices
      rw [hcount, Nat.add_zero, hshutdown]
      exact hrest.trans hslice
    · rw [settle_of_not (Bool.eq_false_iff.mpr hstop)] at hslice
      cases slices with
      | nil =>
        have hnone : (sliced handler [] (slice handler s e).2).1 = 0 := rfl
        rw [hnone, Nat.add_zero, settle_of_not (Bool.eq_false_iff.mpr hstop)]
        exact hslice
      | cons s' slices =>
        have hrest := ih hsmooth (List.cons_ne_nil s' slices)
        have hlater := (hslice.turns hsmooth handler
          (sliced handler (s' :: slices) (slice handler s e).2).1).settle
        rw [Nat.add_comm, Function.iterate_add_apply]
        exact hrest.trans hlater

end

/-! ## 5. Turns and steps of a run -/

section

variable {e : Engine} {pick : Event → Option Task}
  (hp : ∀ event, event.isStart = false → pick event = none)

include hp in
/-- The history tells of all turns and steps. -/
theorem Alike.picks {e' : Engine} (h : Alike e e') :
    picks pick e.journal = picks pick e'.journal := by
  have hhistory (e : Engine) : InstrumentFlow.picks pick e.history
      = InstrumentFlow.picks pick e.journal := by
    unfold InstrumentFlow.picks Engine.history
    rw [← List.filter_reverse, List.filterMap_filter]
    congr 1
    funext event
    cases event with
    | tickEnded => exact (hp .tickEnded rfl).symm
    | _ => rfl
  rw [← hhistory e, ← hhistory e', h.history]

include hp in
theorem Rests.picks {e' : Engine} (h : Rests e e') :
    picks pick e'.journal = picks pick e.journal := by
  obtain ⟨news, ht, hn⟩ := h
  rw [ht.journal, picks_append, picks_eq_nil fun event he => hp event (hn event he),
    List.append_nil]

variable (hs : e.Smooth) (handler : Handler)
include hs

theorem journal_turns (n : Nat) : e.journal <:+ ((turn handler)^[n] e).journal := by
  induction n with
  | zero => exact List.suffix_rfl
  | succ n ih =>
    rw [Function.iterate_succ_apply']
    refine ih.trans ?_
    unfold turn
    split
    · exact List.suffix_rfl
    · next t ts hq =>
      have hturns := hs.turns handler n
      obtain ⟨news, ht, _⟩ := told_turn hturns.inv hturns.timeless.hostless handler hq
      exact ⟨news, ht.journal.symm⟩

/-- What is picked of a run grows with the turns. -/
theorem picks_turns_mono {m n : Nat} (h : m ≤ n) :
    picks pick ((turn handler)^[m] e).journal <+: picks pick ((turn handler)^[n] e).journal := by
  obtain ⟨k, rfl⟩ := Nat.exists_eq_add_of_le' h
  rw [Function.iterate_add_apply]
  obtain ⟨news, hnews⟩ := journal_turns (hs.turns handler m) handler k
  rw [← hnews, picks_append]
  exact List.prefix_append _ _

include hp in
theorem picks_sliced (slices : List Slice) :
    picks pick (sliced handler slices e).2.journal
      = picks pick ((turn handler)^[(sliced handler slices e).1] e).journal := by
  cases slices with
  | nil => rfl
  | cons s slices =>
    rw [(sliced_alike hs handler (List.cons_ne_nil s slices)).picks hp]
    unfold settle
    split
    · exact (rests_shutdown (hs.turns handler _).inv).picks hp
    · rfl

/-- As many tasks have their turn as the ticks run. -/
theorem length_takes_sliced (hl : HandlerLeaps False handler) (slices : List Slice) :
    (takes (sliced handler slices e).2.journal).length
      = (takes e.journal).length + (sliced handler slices e).1 := by
  induction slices generalizing e with
  | nil => rfl
  | cons s slices ih =>
    have hmoment : Alike { e with clock := s.clock } e := ⟨rfl, rfl⟩
    have hs' := hs.of_alike hmoment.symm
    obtain ⟨_, hdiscarded, _⟩ := tick_smooth hs' handler s.allowance
    obtain ⟨news, ht, _, hcount⟩ := turns_tick hl hs'.inv hs'.timeless.hostless s.allowance
    have hslice : (takes (slice handler s e).2.journal).length
        = (takes e.journal).length + (slice handler s e).1.executed := by
      unfold takes slice at *
      rw [ht.journal, picks_append, List.length_append, hcount, hdiscarded]
      rfl
    have hsmooth := (hs.turns handler _).settle.of_alike (slice_smooth hs handler s).1.symm
    rw [sliced_cons]
    dsimp only
    rw [ih hsmooth, hslice, Nat.add_assoc]

end

/-- **What slices come to**, in turns. -/
theorem sliced_spec {e e' : Engine} {n : Nat} (hs : e.Smooth) {handler : Handler}
    (hl : HandlerLeaps False handler) {slices : List Slice}
    (hr : sliced handler slices e = (n, e')) :
    takes e'.journal = takes ((turn handler)^[n] e).journal
      ∧ steps e'.journal = steps ((turn handler)^[n] e).journal
      ∧ (takes e'.journal).length = (takes e.journal).length + n
      ∧ (slices ≠ [] → Alike e' ((turn handler)^[n] e).settle) := by
  obtain rfl : (sliced handler slices e).1 = n := congrArg Prod.fst hr
  obtain rfl : (sliced handler slices e).2 = e' := congrArg Prod.snd hr
  exact ⟨picks_sliced (fun _ => Event.taken?_eq_none) hs handler slices,
    picks_sliced (fun _ => Event.stepped?_eq_none) hs handler slices,
    length_takes_sliced hs handler hl slices, sliced_alike hs handler⟩

/-! ## 6. Every run -/

theorem smooth_after {d : Definition} {config : Config} {dispatcher : Dispatcher} {host : Host}
    {e₀ : Engine} (hb : build d config dispatcher host = .ok e₀) (hd : d.Only Kind.isTimeless)
    (moves : List Move) (hdetached : (e₀.after moves).debugger = none) :
    (e₀.after moves).Smooth := by
  have h₀ : Inv False e₀ := inv_build hb False.elim
  have hrun : Leaps False False False e₀ (e₀.after moves) :=
    leaps_after h₀ False.elim id moves False.elim False.elim
  refine ⟨inv_after h₀ moves False.elim, ?_, allLive_after hb hd.hostless moves, hdetached⟩
  rw [hrun.definition h₀, (build_eq_ok_iff.mp hb).2]
  exact hd

/-- **Two ways to slice a run agree.** From any state of any run of flows whose components wait
    neither for a moment nor for somebody outside, with no debugger attached, let ticks come in two
    ways, at any moments and with any allowances. What has its turn in one way is the beginning of
    what has its turn in the other, and the same goes for the steps; they are as many turns as the
    ticks report to have run. Where as many tasks were run, after a tick each, the states are the
    same but for the moment, and the same led to them but for the ends of ticks.

    Turns are not steps. A task that an instance only drains, because it has failed, has its turn
    and counts as run, as it does in the report of a tick; but no component takes a step in it. -/
theorem sliced_agree {d : Definition} {config : Config} {dispatcher : Dispatcher} {host : Host}
    {e₀ : Engine} (hb : build d config dispatcher host = .ok e₀) (hd : d.Only Kind.isTimeless)
    (moves : List Move) (hdetached : (e₀.after moves).debugger = none) (slices slices' : List Slice)
    {n n' : Nat} {e e' : Engine} (hr : sliced handler slices (e₀.after moves) = (n, e))
    (hr' : sliced handler slices' (e₀.after moves) = (n', e')) :
    ((takes e.journal <+: takes e'.journal ∧ steps e.journal <+: steps e'.journal)
      ∨ (takes e'.journal <+: takes e.journal ∧ steps e'.journal <+: steps e.journal))
    ∧ (takes e.journal).length = (takes (e₀.after moves).journal).length + n
    ∧ (takes e'.journal).length = (takes (e₀.after moves).journal).length + n'
    ∧ (slices ≠ [] → slices' ≠ [] → n = n' → e.bare = e'.bare ∧ e.history = e'.history) := by
  have hs : (e₀.after moves).Smooth := smooth_after hb hd moves hdetached
  have hl := handlerLeaps_handler False
  obtain ⟨htakes, hsteps, hcount, halike⟩ := sliced_spec hs hl hr
  obtain ⟨htakes', hsteps', hcount', halike'⟩ := sliced_spec hs hl hr'
  refine ⟨?_, hcount, hcount', fun hne hne' hn => ?_⟩
  · rw [htakes, htakes', hsteps, hsteps']
    rcases Nat.le_total n n' with h | h
    · exact Or.inl ⟨picks_turns_mono hs handler h, picks_turns_mono hs handler h⟩
    · exact Or.inr ⟨picks_turns_mono hs handler h, picks_turns_mono hs handler h⟩
  · have hboth := (halike hne).trans (hn ▸ (halike' hne').symm)
    exact ⟨hboth.bare, hboth.history⟩

/-- A flow that calls another one and then passes its pulse on. -/
def relayDefinition : Definition :=
  { flows :=
      [{ name := "main", inputFlags := [1, 1]
         components :=
          [{ kind := .start
             outputs := [{ isSequence := true, connections := [⟨1, 0, true⟩, ⟨2, 1, true⟩] }] },
           { kind := .callAction, inputs := [0], payload := [1, 0] },
           { kind := .noop, inputs := [1] }] },
       { name := "inner", inputFlags := [1]
         components :=
          [{ kind := .start
             outputs := [{ isSequence := true, connections := [⟨1, 0, true⟩] }] },
           { kind := .finish, inputs := [0] }] }] }

def relayMoves : List Move := [.order ⟨.startFlow 0, none⟩]

/-- The state in which the flow was started. -/
def relay : Engine := (built relayDefinition {} .absent {}).after relayMoves

/-- Three tasks in two ticks, and the same three with a tick for each: the called flow is about to
    end. -/
theorem sliced_agree_relay :
    build relayDefinition {} .absent {} = .ok (built relayDefinition {} .absent {})
    ∧ relayDefinition.Only Kind.isTimeless
    ∧ relay.debugger = none
    ∧ ∃ e e', sliced handler [⟨0, none⟩, ⟨0, none⟩] relay = (3, e)
      ∧ sliced handler [⟨4, some 1⟩, ⟨6, some 1⟩, ⟨9, some 1⟩] relay = (3, e')
      ∧ e.bare = e'.bare ∧ e.history = e'.history := by
  have hb : build relayDefinition {} .absent {}
      = .ok (built relayDefinition {} .absent {}) := rfl
  have hd : relayDefinition.Only Kind.isTimeless := by decide +kernel
  have hstate : (built relayDefinition {} .absent {}).after relayMoves = relay := rfl
  have hdetached : relay.debugger = none := by decide +kernel
  have hran (slices : List Slice) (hn : (sliced handler slices relay).1 = 3) :
      ∃ e, sliced handler slices relay = (3, e) := ⟨_, Prod.ext hn rfl⟩
  obtain ⟨e, hr⟩ := hran [⟨0, none⟩, ⟨0, none⟩] (by decide +kernel)
  obtain ⟨e', hr'⟩ := hran [⟨4, some 1⟩, ⟨6, some 1⟩, ⟨9, some 1⟩] (by decide +kernel)
  have hall := sliced_agree hb hd relayMoves
  rw [hstate] at hall
  obtain ⟨_, _, _, hagree⟩ := hall hdetached _ _ hr hr'
  obtain ⟨hbare, hhistory⟩ := hagree (List.cons_ne_nil _ _) (List.cons_ne_nil _ _) rfl
  exact ⟨hb, hd, hdetached, e, e', hr, hr', hbare, hhistory⟩

end Engine

end InstrumentFlow
