import InstrumentFlow.Proofs.Slicing

/-!
# Breakpoints

A debugger that is attached and resumed holds a task back at a breakpoint, once. It marks the place
of the task, and the next time that a task of this place has its turn, it lets the task pass.

* `Beat`, `beats`, `Engine.trace` -- the tasks that a tick runs and the one that it holds back at a
  breakpoint, in order; those of a run;
* `ReportsHit`, `heldBack_of_hit` -- what the reports of the ticks tell of them;
* `Explains`, `Explains.onward` -- how a mark came about, and how long that explains it;
* `explained_beats`, `explained_trace` -- every mark of a run is explained;
* `breakpoint_passed` -- **what passes a breakpoint**: the task that was held back there, or one
  that comes after it, if that task was run by a single step.
-/

namespace InstrumentFlow

/-- The place at which a task has work. -/
def Task.place (t : Task) : InstanceId × Nat := (t.instanceId, t.component)

/-- What the debugger sees of a task whose turn has come. -/
inductive Beat where
  /-- The task is held back at a breakpoint. -/
  | hit (e : Engine) (t : Task)
  /-- The task is run. -/
  | ran (e : Engine) (t : Task)

namespace Beat

def isHit : Beat → Bool
  | hit _ _ => true
  | ran _ _ => false

def task : Beat → Task
  | hit _ t | ran _ t => t

/-- The state in which the turn of the task came. -/
def state : Beat → Engine
  | hit e _ | ran e _ => e

/-- What is told of a beat: whether the task is held back, the task, the mode of the debugger, and
    whether there is a breakpoint. -/
def sketch (beat : Beat) : Bool × Task × Option DebuggerMode × Bool :=
  (beat.isHit, beat.task, beat.state.debugger, beat.state.hasBreakpoint beat.task)

end Beat

/-- A tick, a command to the debugger, or something that goes on around the run. -/
def Move.debugs : Move → Bool
  | tick _ | pass _ | serve _ _ | turn _ => true
  | order o =>
    match o.command with
    | .attach | .detach | .pause | .resume | .singleStep => true
    | _ => false
  | idle _ _ => false

namespace Engine

/-! ## 1. The tasks of a tick -/

/-- The state after a task was run whose turn has come. -/
def ranTask (handler : Handler) (e : Engine) (t : Task) : Engine :=
  ((e.debuggerBlocks t).2.takeTask t).runTask handler t

/-- The tasks that `runTasks` runs, in order, and behind them the one that it holds back. -/
def beats (handler : Handler) : Nat → Option Nat → Engine → List Beat
  | 0, _, _ => []
  | count + 1, allowance, e =>
    if e.stopRequested then []
    else if allowance = some 0 then []
    else
      match e.queue.tasks with
      | [] => []
      | t :: _ =>
        if !e.forest.contains t.instanceId then
          beats handler count (allowance.map (· - 1)) ((e.takeTask t).record (.discarded t))
        else if !t.continuous && !e.dataReady t.instanceId t.component then []
        else if (e.debuggerBlocks t).1 then
          if e.debugger = some .resumed then [.hit e t] else []
        else .ran e t ::
          if (e.ranTask handler t).debugger = some .singleStep then []
          else beats handler count (allowance.map (· - 1)) (e.ranTask handler t)

/-- The tasks of a tick. -/
def tickBeats (handler : Handler) (allowance : Option Nat) (e : Engine) : List Beat :=
  if !e.stopRequested && !e.stopped && e.host.isRunning then
    beats handler e.queue.size allowance e
  else []

/-- The tasks of all ticks of a run. -/
def trace (e : Engine) : List Move → List Beat
  | [] => []
  | m :: moves =>
    (match m with
      | .tick allowance => e.tickBeats handler allowance
      | _ => []) ++ (e.move m).trace moves

section

variable {handler : Handler} {e : Engine} {t : Task} {ts : List Task}

theorem debuggerBlocks_of_hit (h : (e.debuggerBlocks t).1 = true)
    (hm : e.debugger = some .resumed) :
    e.hasBreakpoint t = true ∧ t.continuous = false
      ∧ (e.debuggerBlocks t).2
        = { e with debugger := some .paused, skipBreakpoint := some t.place } := by
  unfold debuggerBlocks at h ⊢
  rw [hm] at h ⊢
  dsimp only at h ⊢
  split at h
  · cases h
  next hskip =>
  split at h
  · next hbreak =>
    simp only [Bool.and_eq_true, Bool.not_eq_true'] at hbreak
    rw [if_neg hskip, if_pos (by simp [hbreak])]
    exact ⟨hbreak.1, hbreak.2, rfl⟩
  · cases h

/-- Where the debugger lets a task pass that is resumed, the mark is used up, or it stays and the
    task has another place. -/
theorem debuggerBlocks_of_pass (h : (e.debuggerBlocks t).1 = false) :
    (e.debuggerBlocks t).2 = e ∧ (e.debugger = some .resumed → e.skipBreakpoint ≠ some t.place)
      ∨ e.skipBreakpoint = some t.place ∧ (e.debuggerBlocks t).2.skipBreakpoint = none := by
  unfold debuggerBlocks at h ⊢
  split at h
  · exact Or.inl ⟨rfl, fun hm => by simp_all⟩
  · exact Or.inl ⟨rfl, fun hm => by simp_all⟩
  · cases h
  · dsimp only at h ⊢
    split at h
    · next hskip =>
      rw [if_pos hskip]
      exact Or.inr ⟨hskip, rfl⟩
    next hskip =>
    split at h
    · cases h
    · next hbreak =>
      rw [if_neg hskip, if_neg hbreak]
      exact Or.inl ⟨rfl, fun _ => hskip⟩

/-- Only a single step lets the task pass whose place has the mark, and keeps the mark. -/
theorem singleStep_of_kept (h : (e.debuggerBlocks t).1 = false) (hd : e.debugger ≠ none)
    (hk : (e.debuggerBlocks t).2.skipBreakpoint = some t.place) :
    e.debugger = some .singleStep := by
  rcases debuggerBlocks_of_pass h with ⟨hsame, hother⟩ | ⟨-, hnone⟩
  · rw [hsame] at hk
    cases hm : e.debugger with
    | none => exact absurd hm hd
    | some mode =>
      cases mode with
      | singleStep => rfl
      | resumed => exact absurd hk (hother hm)
      | paused =>
        unfold debuggerBlocks at h
        rw [hm] at h
        cases h
  · rw [hnone] at hk
    cases hk

/-- The debugger makes no mark where it lets a task pass. -/
theorem skipBreakpoint_of_kept (h : (e.debuggerBlocks t).1 = false) {place : InstanceId × Nat}
    (hk : (e.debuggerBlocks t).2.skipBreakpoint = some place) :
    e.skipBreakpoint = some place := by
  rcases debuggerBlocks_of_pass h with ⟨hsame, -⟩ | ⟨-, hnone⟩
  · rwa [hsame] at hk
  · rw [hnone] at hk
    cases hk

/-- **A breakpoint is passed by its mark only.** -/
theorem skipBreakpoint_of_passed (h : (e.debuggerBlocks t).1 = false)
    (hm : e.debugger = some .resumed) (hb : e.hasBreakpoint t = true)
    (hc : t.continuous = false) : e.skipBreakpoint = some t.place := by
  unfold debuggerBlocks at h
  rw [hm] at h
  dsimp only at h
  split at h
  · next hskip => exact hskip
  · rw [hb, hc] at h
    cases h

end

/-- **What one turn of a tick does**, in the beats as well as in the state. -/
inductive Turning (handler : Handler) (count : Nat) (allowance : Option Nat) (e : Engine) : Prop
  /-- The tick ends, and nothing has changed. -/
  | ended (hb : beats handler (count + 1) allowance e = [])
      (hr : ∀ report, (runTasks handler (count + 1) allowance report e).2 = e
        ∧ (runTasks handler (count + 1) allowance report e).1.executed = report.executed)
  | discard {t : Task} {ts : List Task} (hq : e.queue.tasks = t :: ts)
      (hl : e.forest.contains t.instanceId = false)
      (hb : beats handler (count + 1) allowance e
        = beats handler count (allowance.map (· - 1)) ((e.takeTask t).record (.discarded t)))
      (hr : ∀ report, runTasks handler (count + 1) allowance report e
        = runTasks handler count (allowance.map (· - 1))
          { report with discarded := report.discarded + 1 }
          ((e.takeTask t).record (.discarded t)))
  | hit {t : Task} {ts : List Task} (hs : e.stopRequested = false) (hq : e.queue.tasks = t :: ts)
      (hl : e.forest.contains t.instanceId = true) (hh : e.hasBreakpoint t = true)
      (hc : t.continuous = false) (hb : beats handler (count + 1) allowance e = [.hit e t])
      (hr : ∀ report, runTasks handler (count + 1) allowance report e
        = ({ report with paused := true },
          { e with debugger := some .paused, skipBreakpoint := some t.place }))
  /-- A task is run by a single step. -/
  | step {t : Task} {ts : List Task} (hq : e.queue.tasks = t :: ts)
      (hp : (e.debuggerBlocks t).1 = false)
      (hb : beats handler (count + 1) allowance e = [.ran e t])
      (hr : ∀ report, (runTasks handler (count + 1) allowance report e).2
          = { e.ranTask handler t with debugger := some .paused }
        ∧ (runTasks handler (count + 1) allowance report e).1.executed = report.executed + 1)
  | ran {t : Task} {ts : List Task} (hq : e.queue.tasks = t :: ts)
      (hp : (e.debuggerBlocks t).1 = false)
      (hb : beats handler (count + 1) allowance e
        = .ran e t :: beats handler count (allowance.map (· - 1)) (e.ranTask handler t))
      (hr : ∀ report, runTasks handler (count + 1) allowance report e
        = runTasks handler count (allowance.map (· - 1))
          { report with executed := report.executed + 1 } (e.ranTask handler t))

theorem turning (handler : Handler) (count : Nat) (allowance : Option Nat) (e : Engine) :
    Turning handler count allowance e := by
  cases hstop : e.stopRequested with
  | true => exact .ended (by simp [beats, hstop]) fun report => by simp [runTasks, hstop]
  | false =>
  by_cases hspent : allowance = some 0
  · exact .ended (by simp [beats, hspent]) fun report => by simp [runTasks, hstop, hspent]
  cases hq : e.queue.tasks with
  | nil => exact .ended (by simp [beats, hq]) fun report => by simp [runTasks, hstop, hspent, hq]
  | cons t ts =>
  cases hl : e.forest.contains t.instanceId with
  | false =>
    exact .discard hq hl (by simp [beats, hstop, hspent, hq, hl])
      fun report => by simp [runTasks, hstop, hspent, hq, hl]
  | true =>
  cases hready : !t.continuous && !e.dataReady t.instanceId t.component with
  | true =>
    exact .ended (by simp [beats, hq, hl, hready])
      fun report => by simp [runTasks, hstop, hspent, hq, hl, hready]
  | false =>
  cases hblock : e.debuggerBlocks t with
  | mk blocks e' =>
  cases blocks with
  | true =>
    have hstate : (e.debuggerBlocks t).2 = e' := by rw [hblock]
    by_cases hmode : e.debugger = some .resumed
    · obtain ⟨hbreak, hfresh, hhit⟩ := debuggerBlocks_of_hit (by rw [hblock]) hmode
      refine .hit hstop hq hl hbreak hfresh
        (by simp [beats, hstop, hspent, hq, hl, hready, hblock, hmode]) fun report => ?_
      rw [← hhit, hstate]
      simp [runTasks, hstop, hspent, hq, hl, hready, hblock]
    · have hsame : e' = e := by
        unfold debuggerBlocks at hblock
        split at hblock <;> simp_all
      refine .ended (by simp [beats, hq, hl, hready, hblock, hmode]) fun report => ?_
      simp [runTasks, hstop, hspent, hq, hl, hready, hblock, hsame]
  | false =>
    have hran : e.ranTask handler t = (e'.takeTask t).runTask handler t := by
      unfold ranTask
      rw [hblock]
    have hpass : (e.debuggerBlocks t).1 = false := by rw [hblock]
    by_cases hmode : ((e'.takeTask t).runTask handler t).debugger = some .singleStep
    · refine .step hq hpass
        (by simp [beats, hstop, hspent, hq, hl, hready, hblock, hran, hmode]) fun report => ?_
      rw [hran]
      simp [runTasks, hstop, hspent, hq, hl, hready, hblock, hmode]
    · refine .ran hq hpass
        (by simp [beats, hstop, hspent, hq, hl, hready, hblock, hran, hmode]) fun report => ?_
      rw [hran]
      simp [runTasks, hstop, hspent, hq, hl, hready, hblock, hmode]

/-! ## 2. What the reports tell -/

/-- **A tick reports a breakpoint that is hit**: it returns paused, with the task still in front of
    the queue, and the debugger is paused. -/
structure ReportsHit (handler : Handler) (allowance : Option Nat) (e : Engine) (t : Task) :
    Prop where
  paused : (e.tick handler allowance).1.paused = true
  first : (e.tick handler allowance).2.queue.tasks.head? = some t
  debugger : (e.tick handler allowance).2.debugger = some .paused
  mark : (e.tick handler allowance).2.skipBreakpoint = some t.place
  breakpoint : (e.tick handler allowance).2.hasBreakpoint t = true
  fresh : t.continuous = false

/-- A hit ends the turns of a tick. -/
theorem runTasks_of_hit {handler : Handler} {count : Nat} {allowance : Option Nat}
    {e b : Engine} {t : Task} {pre rest : List Beat}
    (h : beats handler count allowance e = pre ++ .hit b t :: rest) :
    rest = [] ∧ (∀ report, ∃ report' : TickReport, runTasks handler count allowance report e
        = ({ report' with paused := true },
          { b with debugger := some .paused, skipBreakpoint := some t.place }))
      ∧ b.stopRequested = false ∧ b.queue.tasks.head? = some t
      ∧ b.hasBreakpoint t = true ∧ t.continuous = false := by
  induction count generalizing allowance e pre with
  | zero => simp [beats] at h
  | succ count ih =>
    cases turning handler count allowance e with
    | ended hb hr =>
      rw [hb] at h
      simp at h
    | discard hq hl hb hr =>
      obtain ⟨hlast, hruns, hrest⟩ := ih (hb ▸ h)
      exact ⟨hlast, fun report => hr report ▸ hruns _, hrest⟩
    | hit hs hq hl hh hc hb hr =>
      rw [hb] at h
      cases pre with
      | nil =>
        obtain ⟨hbeat, hlast⟩ := List.cons.inj h
        obtain ⟨rfl, rfl⟩ := Beat.hit.inj hbeat
        exact ⟨hlast.symm, fun report => ⟨report, hr report⟩, hs, by rw [hq]; rfl, hh, hc⟩
      | cons beat pre => simp at h
    | step hq hp hb hr =>
      rw [hb] at h
      cases pre with
      | nil => cases h
      | cons beat pre => simp at h
    | ran hq hp hb hr =>
      rw [hb] at h
      cases pre with
      | nil => cases h
      | cons beat pre =>
        rw [List.cons_append] at h
        obtain ⟨hlast, hruns, hrest⟩ := ih (List.cons.inj h).2
        exact ⟨hlast, fun report => hr report ▸ hruns _, hrest⟩

/-- **What is hit is reported** by the tick, which leaves the queue as it found it. -/
theorem reportsHit_of_hit {handler : Handler} {allowance : Option Nat} {e b : Engine} {t : Task}
    {pre rest : List Beat} (h : e.tickBeats handler allowance = pre ++ .hit b t :: rest) :
    rest = [] ∧ ReportsHit handler allowance e t
      ∧ (e.tick handler allowance).2.queue = b.queue := by
  unfold tickBeats at h
  split at h
  · next hgo =>
    obtain ⟨hlast, hruns, hstop, hfirst, hbreak, hfresh⟩ := runTasks_of_hit h
    obtain ⟨report, hrun⟩ := hruns {}
    have htick : e.tick handler allowance
        = ({ report with paused := true, stopped := b.stopped, remaining := b.queue.size },
          { b with debugger := some .paused, skipBreakpoint := some t.place }.record
            .tickEnded) := by
      unfold tick
      rw [if_pos hgo, hrun]
      unfold endTick
      dsimp only
      rw [hstop, if_neg Bool.false_ne_true]
    exact ⟨hlast, ⟨by rw [htick], by rw [htick]; exact hfirst, by rw [htick]; rfl,
      by rw [htick]; rfl, by rw [htick]; exact hbreak, hfresh⟩, by rw [htick]; rfl⟩
  · simp at h

/-- **A task was held back**: some tick of the run reported that. It left the state `e'`, and
    `later` is what the ticks after it ran and held back. -/
def HeldBack (e : Engine) (moves : List Move) (t : Task) (e' : Engine) (later : List Beat) :
    Prop :=
  ∃ before allowance behind, moves = before ++ .tick allowance :: behind
    ∧ ReportsHit handler allowance (e.after before) t
    ∧ e' = e.after (before ++ [.tick allowance]) ∧ later = e'.trace behind

theorem heldBack_of_hit {e b : Engine} {moves : List Move} {t : Task} {pre rest : List Beat}
    (h : e.trace moves = pre ++ .hit b t :: rest) :
    ∃ e', HeldBack e moves t e' rest ∧ e'.queue = b.queue := by
  induction moves generalizing e pre with
  | nil => simp [trace] at h
  | cons m moves ih =>
    have hnext {pre : List Beat} (h : (e.move m).trace moves = pre ++ .hit b t :: rest) :
        ∃ e', HeldBack e (m :: moves) t e' rest ∧ e'.queue = b.queue := by
      obtain ⟨e', ⟨before, allowance, behind, rfl, hreports, hafter, hlater⟩, hqueue⟩ := ih h
      exact ⟨e', ⟨m :: before, allowance, behind, rfl, hreports, hafter, hlater⟩, hqueue⟩
    cases m with
    | tick allowance =>
      have hsplit : e.tickBeats handler allowance ++ (e.move (.tick allowance)).trace moves
          = pre ++ .hit b t :: rest := h
      rcases List.append_eq_append_iff.mp hsplit with ⟨later, -, hlater⟩ | ⟨later, htick, hrest⟩
      · exact hnext hlater
      cases later with
      | nil =>
        have hbehind : (e.move (.tick allowance)).trace moves = [] ++ .hit b t :: rest :=
          hrest.symm
        exact hnext hbehind
      | cons beat later =>
        obtain ⟨rfl, hbehind⟩ := List.cons.inj hrest
        obtain ⟨rfl, hreports, hqueue⟩ := reportsHit_of_hit htick
        exact ⟨_, ⟨[], allowance, moves, rfl, hreports, rfl, hbehind⟩, hqueue⟩
    | _ => exact hnext h

/-! ## 3. How a mark comes about -/

/-- Only a component of the host can make a new mark when it is run. -/
theorem exists_host_of_marked {e : Engine} {t : Task} {ts : List Task} (hi : Inv False e)
    (hq : e.queue.tasks = t :: ts) (handler : Handler)
    (hm : (e.ranTask handler t).skipBreakpoint ≠ (e.debuggerBlocks t).2.skipBreakpoint) :
    ∃ c, e.componentOf? t.instanceId t.component = some c ∧ c.kind.isBuiltIn = false := by
  have hblock : Leaps False False False e (e.debuggerBlocks t).2 :=
    leaps_debuggerBlocks hi .refl t
  have htake : Leaps False False False e ((e.debuggerBlocks t).2.takeTask t) :=
    hblock.tail (.take id ((tasks_debuggerBlocks e t).trans hq))
  have hcomponent (c : Component) :
      ((e.debuggerBlocks t).2.takeTask t).componentOf? t.instanceId t.component = some c
        → e.componentOf? t.instanceId t.component = some c := by
    rw [debuggerBlocks_snd]
    exact id
  refine Classical.byContradiction fun hnone => hm ?_
  obtain ⟨_, hframe⟩ := frame_runTask (htake.inv hi) handler fun c hc =>
    Bool.eq_true_of_not_eq_false fun hk => hnone ⟨c, hcomponent c hc, hk⟩
  exact hframe.skipBreakpoint

theorem skipBreakpoint_shutdown {closed : Prop} {e : Engine} (hi : Inv closed e) :
    e.shutdown.skipBreakpoint = e.skipBreakpoint := by
  have hfree : Paces closed anybody e (e.forest.roots.foldl (fun e root => e.free root) e) :=
    paces_freeAll hi .refl e.forest.roots
  exact hfree.frame.skipBreakpoint

/-- **How a mark came about**, from what the ticks ran and held back so far. -/
inductive Explains (past : List Beat) (e : Engine) (place : InstanceId × Nat) : Prop
  /-- The task that was held back last is still the first one. -/
  | held {pre : List Beat} {b : Engine} {t : Task} (hpast : past = pre ++ [.hit b t])
      (hp : t.place = place) (hq : e.queue = b.queue) (hf : b.queue.tasks.head? = some t)
      (hl : e.forest.contains t.instanceId = true) (hd : e.debugger ≠ none)
      (hs : e.stopRequested = false) : Explains past e place
  /-- The task that was held back last was run by a single step. -/
  | stepped {pre rest : List Beat} {b b' : Engine} {t : Task}
      (hpast : past = pre ++ .hit b t :: .ran b' t :: rest) (hp : t.place = place)
      (hq : b'.queue = b.queue) (hd : b'.debugger = some .singleStep)
      (hr : ∀ beat ∈ rest, beat.isHit = false) : Explains past e place
  /-- A component of the host made the mark, which let a task be held back in the middle of its
      step. -/
  | nested {pre rest : List Beat} {b : Engine} {u : Task} {c : Component}
      (hpast : past = pre ++ .ran b u :: rest)
      (hc : b.componentOf? u.instanceId u.component = some c) (hk : c.kind.isBuiltIn = false)
      (hn : (b.debuggerBlocks u).2.skipBreakpoint ≠ some place)
      (hm : (b.ranTask handler u).skipBreakpoint = some place) : Explains past e place

/-- **An explanation lasts** while tasks are run and none is held back, whatever becomes of the
    task that may be held back now. -/
theorem Explains.onward {past later : List Beat} {e e' : Engine} {place : InstanceId × Nat}
    (h : Explains past e place) (hl : ∀ beat ∈ later, beat.isHit = false)
    (hheld : ∀ pre b t, past = pre ++ [.hit b t] → t.place = place → e.queue = b.queue →
      e.queue.tasks.head? = some t → e.forest.contains t.instanceId = true → e.debugger ≠ none →
      e.stopRequested = false → Explains (past ++ later) e' place) :
    Explains (past ++ later) e' place := by
  cases h with
  | @held pre b t hpast hp hq hf hl hd hs => exact hheld pre b t hpast hp hq (hq ▸ hf) hl hd hs
  | @stepped pre rest b b' t hpast hp hq hd hr =>
    have hlonger : past ++ later = pre ++ .hit b t :: .ran b' t :: (rest ++ later) := by
      simp [hpast]
    refine .stepped hlonger hp hq hd fun beat hbeat => ?_
    exact (List.mem_append.mp hbeat).elim (hr beat) (hl beat)
  | @nested pre rest b u c hpast hc hk hn hm =>
    have hlonger : past ++ later = pre ++ .ran b u :: (rest ++ later) := by simp [hpast]
    exact .nested hlonger hc hk hn hm

/-- Likewise while nothing is run. -/
theorem Explains.still {past : List Beat} {e e' : Engine} {place : InstanceId × Nat}
    (h : Explains past e place)
    (hheld : ∀ pre b t, past = pre ++ [.hit b t] → t.place = place → e.queue = b.queue →
      e.queue.tasks.head? = some t → e.forest.contains t.instanceId = true → e.debugger ≠ none →
      e.stopRequested = false → Explains past e' place) : Explains past e' place := by
  have hnone : ∀ beat ∈ ([] : List Beat), beat.isHit = false := fun _ hn => by cases hn
  have honward : Explains (past ++ []) e' place := h.onward hnone fun pre b t => by
    rw [List.append_nil]
    exact hheld pre b t
  rwa [List.append_nil] at honward

/-- The mark is explained, if there is one. -/
def Explained (past : List Beat) (e : Engine) : Prop :=
  ∀ place, e.skipBreakpoint = some place → Explains past e place

namespace Explained

variable {past : List Beat} {e e' : Engine} {t : Task} {ts : List Task}

theorem of_unmarked (h : e.skipBreakpoint = none) : Explained past e := by
  intro place hplace
  rw [h] at hplace
  cases hplace

/-- A change of what has nothing to do with the first task. -/
theorem congr (h : Explained past e) (hm : e'.skipBreakpoint = e.skipBreakpoint)
    (hq : e'.queue = e.queue) (hf : e'.forest = e.forest)
    (hd : e.debugger ≠ none → e'.debugger ≠ none)
    (hs : e.stopRequested = false → e'.stopRequested = false) : Explained past e' := by
  intro place hplace
  rw [hm] at hplace
  refine (h place hplace).still fun pre b t hpast hp hqueue hfirst hl hd' hs' => ?_
  exact .held hpast hp (hq.trans hqueue) (hqueue ▸ hfirst) (hf ▸ hl) (hd hd') (hs hs')

/-- A new hit explains the new mark. -/
theorem hit (past : List Beat) (hs : e.stopRequested = false) (hq : e.queue.tasks = t :: ts)
    (hl : e.forest.contains t.instanceId = true) :
    Explained (past ++ [.hit e t])
      { e with debugger := some .paused, skipBreakpoint := some t.place } := by
  intro place hplace
  have hfirst : e.queue.tasks.head? = some t := by rw [hq]; rfl
  exact .held rfl (Option.some.inj hplace) rfl hfirst hl (fun h => nomatch h) hs

/-- A task that is dropped is not the one that is held back. -/
theorem discard (h : Explained past e) (hq : e.queue.tasks = t :: ts)
    (hl : e.forest.contains t.instanceId = false) :
    Explained past ((e.takeTask t).record (.discarded t)) := by
  intro place hplace
  have hmark : e.skipBreakpoint = some place := hplace
  refine (h place hmark).still fun pre b t' _ _ _ hfirst hlive _ _ => ?_
  rw [hq] at hfirst
  obtain rfl := Option.some.inj hfirst
  rw [hl] at hlive
  cases hlive

/-- **A task that is run** uses up the mark of its place, but for a single step. -/
theorem ran (h : Explained past e) (hi : Inv False e) (hq : e.queue.tasks = t :: ts)
    (hp : (e.debuggerBlocks t).1 = false) :
    Explained (past ++ [.ran e t]) (e.ranTask handler t) := by
  intro place hplace
  by_cases hkept : (e.debuggerBlocks t).2.skipBreakpoint = some place
  · -- the mark was there before, and the task has another place or is run by a single step
    have hran : ∀ beat ∈ [Beat.ran e t], beat.isHit = false := fun beat hbeat => by
      rw [List.mem_singleton.mp hbeat]
      rfl
    refine (h place (skipBreakpoint_of_kept hp hkept)).onward hran ?_
    intro pre b t' hpast hplace' hqueue hfirst _ hd _
    rw [hq] at hfirst
    obtain rfl := Option.some.inj hfirst
    have hmode := singleStep_of_kept hp hd (hplace' ▸ hkept)
    have hlonger : past ++ [.ran e t] = pre ++ .hit b t :: .ran e t :: [] := by simp [hpast]
    exact .stepped hlonger hplace' hqueue hmode fun _ hn => by cases hn
  · have hnew : (e.ranTask handler t).skipBreakpoint ≠ (e.debuggerBlocks t).2.skipBreakpoint :=
      fun hsame => hkept (hsame.symm.trans hplace)
    obtain ⟨c, hc, hk⟩ := exists_host_of_marked hi hq handler hnew
    exact .nested rfl hc hk hkept hplace

theorem endTick (h : Explained past e) (hi : Inv False e) (report : TickReport) :
    Explained past (endTick report e).2 := by
  unfold Engine.endTick
  dsimp only
  split
  · next hstop =>
    intro place hplace
    have hmark : e.skipBreakpoint = some place := (skipBreakpoint_shutdown hi).symm.trans hplace
    refine (h place hmark).still fun _ _ _ _ _ _ _ _ _ hs => ?_
    rw [hstop] at hs
    cases hs
  · exact h.congr rfl rfl rfl id id

end Explained

/-! ## 4. Ticks and runs -/

/-- A task that is run is the first one, and the debugger does not hold it back. -/
structure MayPass (b : Engine) (t : Task) : Prop where
  first : b.queue.tasks.head? = some t
  passes : (b.debuggerBlocks t).1 = false

/-- **In a tick every mark is explained**, in the end and wherever a task is run. -/
theorem explained_beats {past : List Beat} {e : Engine} (h : Explained past e)
    (hi : Inv False e) (count : Nat) (allowance : Option Nat) (report : TickReport) :
    Explained (past ++ beats handler count allowance e)
        (runTasks handler count allowance report e).2
      ∧ ∀ pre b t rest, beats handler count allowance e = pre ++ .ran b t :: rest →
        Explained (past ++ pre) b ∧ MayPass b t := by
  -- along the turns of the tick, each of which adds at most one beat
  induction count generalizing past allowance report e with
  | zero =>
    refine ⟨by simpa [beats, runTasks] using h, fun pre b t rest heq => ?_⟩
    simp [beats] at heq
  | succ count ih =>
    cases turning handler count allowance e with
    | ended hb hr =>
      rw [hb, (hr report).1, List.append_nil]
      refine ⟨h, fun pre b t rest heq => ?_⟩
      simp at heq
    | @discard t ts hq hl hb hr =>
      rw [hb, hr]
      have hgone : e.instance? t.instanceId = none := by
        simpa [Forest.contains, instance?] using hl
      have hleap : Leaps False False False e ((e.takeTask t).record (.discarded t)) :=
        .single (.discard hq hgone)
      exact ih (h.discard hq hl) (hleap.inv hi) _ _
    | hit hs hq hl hh hc hb hr =>
      rw [hb, hr]
      refine ⟨.hit past hs hq hl, fun pre b t rest heq => ?_⟩
      cases pre with
      | nil => cases heq
      | cons beat pre => simp at heq
    | @step t ts hq hp hb hr =>
      have hran := h.ran hi hq hp
      rw [hb, (hr report).1]
      refine ⟨hran.congr rfl rfl rfl (fun _ h => by cases h) id, fun pre b u rest heq => ?_⟩
      cases pre with
      | nil =>
        obtain ⟨rfl, rfl⟩ := Beat.ran.inj (List.cons.inj heq).1
        rw [List.append_nil]
        exact ⟨h, by rw [hq]; rfl, hp⟩
      | cons beat pre => simp at heq
    | @ran t ts hq hp hb hr =>
      have hblock : Leaps False False False e (e.debuggerBlocks t).2 :=
        leaps_debuggerBlocks hi .refl t
      have htake := hblock.tail (.take id ((tasks_debuggerBlocks e t).trans hq))
      have hleaps := leaps_runTask (handlerLeaps_handler False) hi htake t
      obtain ⟨hend, hbeats⟩ := ih (h.ran hi hq hp) (hleaps.inv hi) (allowance.map (· - 1))
        { report with executed := report.executed + 1 }
      rw [hb, hr]
      refine ⟨by simpa using hend, fun pre b u rest heq => ?_⟩
      cases pre with
      | nil =>
        obtain ⟨rfl, rfl⟩ := Beat.ran.inj (List.cons.inj heq).1
        rw [List.append_nil]
        exact ⟨h, by rw [hq]; rfl, hp⟩
      | cons beat pre =>
        rw [List.cons_append] at heq
        obtain ⟨rfl, hlater⟩ := List.cons.inj heq
        simpa using hbeats pre b u rest hlater

/-- **A tick** keeps every mark explained. -/
theorem explained_tick {past : List Beat} {e : Engine} (h : Explained past e)
    (hi : Inv False e) (allowance : Option Nat) :
    Explained (past ++ e.tickBeats handler allowance) (e.tick handler allowance).2
      ∧ ∀ pre b t rest, e.tickBeats handler allowance = pre ++ .ran b t :: rest →
        Explained (past ++ pre) b ∧ MayPass b t := by
  unfold tickBeats tick
  split
  · obtain ⟨hend, hbeats⟩ := explained_beats h hi e.queue.size allowance {}
    have hleaps : Leaps False False False e
        (runTasks handler e.queue.size allowance {} e).2 :=
      leaps_runTasks (handlerLeaps_handler False) hi False.elim id .refl _ _ _
    exact ⟨hend.endTick (hleaps.inv hi) _, hbeats⟩
  · rw [List.append_nil]
    refine ⟨h.endTick hi {}, fun pre b t rest heq => ?_⟩
    simp at heq

/-- So does a command to the debugger, and what goes on around the run. -/
theorem explained_move {past : List Beat} {e : Engine} (h : Explained past e) {m : Move}
    (hm : m.debugs = true) (ht : ∀ allowance, m ≠ .tick allowance) :
    Explained past (e.move m) := by
  cases m with
  | tick allowance => exact absurd rfl (ht allowance)
  | idle _ _ => cases hm
  | pass _ | serve _ _ | turn _ => exact h.congr rfl rfl rfl id id
  | order o =>
    obtain ⟨command, keepAs⟩ := o
    have hkept (e' : Engine) {reply : Reply} (hr : replyValue? reply = none)
        (hp : perform handler command e = (reply, e')) :
        e.move (.order ⟨command, keepAs⟩) = e' := by
      show (performOrder handler ⟨command, keepAs⟩ e).2 = e'
      unfold performOrder
      rw [hp]
      dsimp only
      rw [hr]
      cases keepAs <;> rfl
    have hset (mode : DebuggerMode) : Explained past (e.setDebugger mode) := by
      refine h.congr rfl rfl rfl (fun hd => ?_) id
      obtain ⟨old, hold⟩ := Option.ne_none_iff_exists'.mp hd
      simp [setDebugger, hold]
    cases command with
    | attach =>
      rw [hkept e.attachDebugger rfl rfl]
      exact h.congr rfl rfl rfl (fun _ h => nomatch h) id
    | detach =>
      rw [hkept e.detachDebugger rfl rfl]
      exact .of_unmarked rfl
    | pause => exact hkept (e.setDebugger .paused) rfl rfl ▸ hset _
    | resume => exact hkept (e.setDebugger .resumed) rfl rfl ▸ hset _
    | singleStep => exact hkept (e.setDebugger .singleStep) rfl rfl ▸ hset _
    | _ => cases hm

/-- **In a run every mark is explained**, wherever a task is run. -/
theorem explained_trace {past : List Beat} {e : Engine} (h : Explained past e)
    (hi : Inv False e) (moves : List Move) (hm : ∀ m ∈ moves, m.debugs = true)
    {pre rest : List Beat} {b : Engine} {t : Task}
    (ht : e.trace moves = pre ++ .ran b t :: rest) :
    Explained (past ++ pre) b ∧ MayPass b t := by
  induction moves generalizing past e pre with
  | nil => simp [trace] at ht
  | cons m moves ih =>
    have hi' : Inv False (e.move m) := inv_after hi [m] False.elim
    have hmoves : ∀ m ∈ moves, m.debugs = true := fun m' hm' => hm m' (List.mem_cons_of_mem m hm')
    cases m with
    | tick allowance =>
      obtain ⟨hend, hbeats⟩ := explained_tick h hi allowance
      have hsplit : e.tickBeats handler allowance ++ (e.move (.tick allowance)).trace moves
          = pre ++ .ran b t :: rest := ht
      rcases List.append_eq_append_iff.mp hsplit with ⟨later, rfl, hlater⟩ | ⟨later, htick, hrest⟩
      · rw [← List.append_assoc]
        exact ih hend hi' hmoves hlater
      · cases later with
        | nil =>
          rw [List.append_nil] at htick
          rw [List.nil_append] at hrest
          subst htick
          have hnext : (e.move (.tick allowance)).trace moves = [] ++ .ran b t :: rest := hrest.symm
          simpa using ih hend hi' hmoves hnext
        | cons beat later =>
          obtain ⟨rfl, -⟩ := List.cons.inj hrest
          exact hbeats pre b t later htick
    | _ =>
      exact ih (explained_move h (hm _ List.mem_cons_self) fun _ h => nomatch h) hi' hmoves ht

/-! ## 5. What passes a breakpoint -/

/-- **What passes a breakpoint.** In a run of ticks and commands to the debugger, wherever a tick
    runs a task at a breakpoint while the debugger is resumed, an earlier tick reported a task of
    this place that it held back. Either this is the very task, still the first one in the same
    queue, and nothing was run since; or the task that was held back was run by a single step, and
    nothing was held back since; or a component of the host made the mark in the middle of a step
    of its own. -/
theorem breakpoint_passed {d : Definition} {config : Config} {dispatcher : Dispatcher}
    {host : Host} {e₀ : Engine} (hb : build d config dispatcher host = .ok e₀)
    (earlier : List Move) (hu : (e₀.after earlier).skipBreakpoint = none) (moves : List Move)
    (hm : ∀ m ∈ moves, m.debugs = true) {past rest : List Beat} {b : Engine} {t : Task}
    (ht : (e₀.after earlier).trace moves = past ++ .ran b t :: rest)
    (hd : b.debugger = some .resumed) (hbreak : b.hasBreakpoint t = true)
    (hc : t.continuous = false) :
    (∃ e', HeldBack (e₀.after earlier) moves t e' (.ran b t :: rest) ∧ b.queue = e'.queue)
    ∨ (∃ e' t₀ b₁ later,
        HeldBack (e₀.after earlier) moves t₀ e' (.ran b₁ t₀ :: later ++ .ran b t :: rest)
        ∧ t₀.place = t.place ∧ b₁.queue = e'.queue ∧ b₁.debugger = some .singleStep
        ∧ ∀ beat ∈ later, beat.isHit = false)
    ∨ ∃ b₁ u c, .ran b₁ u ∈ past
        ∧ b₁.componentOf? u.instanceId u.component = some c ∧ c.kind.isBuiltIn = false
        ∧ (b₁.ranTask handler u).skipBreakpoint = some t.place := by
  have hi : Inv False (e₀.after earlier) := inv_after (inv_build hb False.elim) earlier False.elim
  have hnone : Explained [] (e₀.after earlier) := .of_unmarked hu
  obtain ⟨hexplained, hpass⟩ := explained_trace hnone hi moves hm ht
  rw [List.nil_append] at hexplained
  cases hexplained _ (skipBreakpoint_of_passed hpass.passes hd hbreak hc) with
  | @held pre b₀ t₀ hpast hplace hq hf hl hd' hs =>
    rw [← hq, hpass.first] at hf
    obtain rfl := Option.some.inj hf
    rw [hpast, List.append_assoc] at ht
    obtain ⟨e', hheld, hqueue⟩ := heldBack_of_hit ht
    exact Or.inl ⟨e', hheld, hq.trans hqueue.symm⟩
  | @stepped pre later b₀ b₁ t₀ hpast hplace hq hstep hr =>
    rw [hpast, List.append_assoc] at ht
    obtain ⟨e', hheld, hqueue⟩ := heldBack_of_hit ht
    exact Or.inr (Or.inl ⟨e', t₀, b₁, later, hheld, hplace, hq.trans hqueue.symm, hstep, hr⟩)
  | @nested pre later b₁ u c hpast hc' hk hn hmark =>
    refine Or.inr (Or.inr ⟨b₁, u, c, ?_, hc', hk, hmark⟩)
    rw [hpast]
    exact List.mem_append_right _ List.mem_cons_self

/-! ## 6. A breakpoint that is stepped over -/

/-- A flow in which a component with a breakpoint is triggered twice, and another one in between. -/
def twiceDefinition : Definition :=
  { flows :=
      [{ name := "main", inputFlags := [1, 1]
         components :=
          [{ kind := .start, outputs := [{ isSequence := true, connections := [⟨3, 0, true⟩] }] },
           { kind := .start, outputs := [{ isSequence := true, connections := [⟨4, 1, true⟩] }] },
           { kind := .start, outputs := [{ isSequence := true, connections := [⟨3, 0, true⟩] }] },
           { kind := .noop, inputs := [0], breakpoint := true },
           { kind := .noop, inputs := [1] }] }] }

/-- The state in which the flow was started. -/
def twice : Engine := (built twiceDefinition {} .absent {}).after [.order ⟨.startFlow 0, none⟩]

/-- The first hit of the breakpoint is stepped over, and the run goes on. -/
def steppedOver : List Move :=
  [.order ⟨.attach, none⟩, .tick none, .tick none, .order ⟨.singleStep, none⟩, .tick none,
    .order ⟨.resume, none⟩, .tick none]

/-- The task of the component with the breakpoint. -/
def steppedTask : Task := ⟨⟨0, 0⟩, 3, false⟩

/-- At last the task is run a second time, while the debugger is resumed. -/
theorem trace_steppedOver :
    ∃ past b, twice.trace steppedOver = past ++ [.ran b steppedTask]
      ∧ b.debugger = some .resumed ∧ b.hasBreakpoint steppedTask = true := by
  have hlast : (twice.trace steppedOver).getLast?.map Beat.sketch
      = some (false, steppedTask, some .resumed, true) := by decide +kernel
  obtain ⟨beat, hbeat, hsketch⟩ := Option.map_eq_some_iff.mp hlast
  obtain ⟨past, htrace⟩ := List.getLast?_eq_some_iff.mp hbeat
  cases beat with
  | hit b t => cases hsketch
  | ran b t =>
    simp only [Beat.sketch, Beat.isHit, Beat.task, Beat.state, Prod.mk.injEq, true_and] at hsketch
    obtain ⟨rfl, hmode, hbreak⟩ := hsketch
    exact ⟨past, b, htrace, hmode, hbreak⟩

theorem debugs_steppedOver : ∀ m ∈ steppedOver, m.debugs = true := by
  intro m hm
  simp only [steppedOver, List.mem_cons, List.not_mem_nil, or_false] at hm
  rcases hm with rfl | rfl | rfl | rfl | rfl | rfl | rfl <;> rfl

/-- Whenever a tick has ended, other tasks are run before that. -/
theorem run_before_steppedTask {before behind : List Move} {allowance : Option Nat}
    (hsplit : steppedOver = before ++ .tick allowance :: behind) {between : List Beat} {b : Engine}
    (hb : b.debugger = some .resumed) (hbreak : b.hasBreakpoint steppedTask = true)
    (hbetween : ∀ beat ∈ between, beat.isHit = true) :
    between ++ [.ran b steppedTask]
      ≠ (twice.after (before ++ [.tick allowance])).trace behind := by
  intro heq
  have hcheck : ∀ n ∈ List.range 8,
      (((twice.after (steppedOver.take n)).trace (steppedOver.drop n)).map Beat.sketch).dropWhile
        (·.1) ≠ [(false, steppedTask, some .resumed, true)] := by decide +kernel
  have hlength : (before ++ [Move.tick allowance]).length < 8 := by
    have hseven : steppedOver.length = 7 := rfl
    rw [hsplit] at hseven
    simp only [List.length_append, List.length_cons, List.length_nil] at hseven ⊢
    omega
  have hwhole : steppedOver = (before ++ [.tick allowance]) ++ behind := by rw [hsplit]; simp
  refine hcheck _ (List.mem_range.mpr hlength) ?_
  rw [hwhole, List.take_left' rfl, List.drop_left' rfl, ← heq, List.map_append,
    List.dropWhile_append_of_pos]
  · simp [Beat.sketch, Beat.isHit, Beat.task, Beat.state, hb, hbreak]
  · intro s hs
    obtain ⟨beat, hmem, rfl⟩ := List.mem_map.mp hs
    exact hbetween beat hmem

/-- After the single step the second task passes the breakpoint. -/
theorem breakpoint_passed_steppedOver :
    build twiceDefinition {} .absent {} = .ok (built twiceDefinition {} .absent {})
    ∧ twice.skipBreakpoint = none ∧ (∀ m ∈ steppedOver, m.debugs = true)
    ∧ ∃ past b, twice.trace steppedOver = past ++ [.ran b steppedTask]
      ∧ b.debugger = some .resumed ∧ b.hasBreakpoint steppedTask = true
      ∧ ∃ e' t₀ b₁ later,
        HeldBack twice steppedOver t₀ e' (.ran b₁ t₀ :: later ++ [.ran b steppedTask])
        ∧ t₀.place = steppedTask.place ∧ b₁.debugger = some .singleStep := by
  have hb : build twiceDefinition {} .absent {} = .ok (built twiceDefinition {} .absent {}) := rfl
  have hu : twice.skipBreakpoint = none := by decide +kernel
  obtain ⟨past, b, htrace, hmode, hbreak⟩ := trace_steppedOver
  refine ⟨hb, hu, debugs_steppedOver, past, b, htrace, hmode, hbreak, ?_⟩
  rcases breakpoint_passed hb [.order ⟨.startFlow 0, none⟩] hu steppedOver debugs_steppedOver
    htrace hmode hbreak rfl with ⟨e', hheld, -⟩ | ⟨e', t₀, b₁, later, hheld, hplace, -, hstep, -⟩
      | ⟨b₁, u, c, hmem, hc, hk, -⟩
  · obtain ⟨before, allowance, behind, hsplit, -, rfl, hlater⟩ := hheld
    have hnone : ∀ beat ∈ ([] : List Beat), beat.isHit = true := fun _ h => nomatch h
    exact absurd hlater (run_before_steppedTask hsplit hmode hbreak hnone)
  · exact ⟨e', t₀, b₁, later, hheld, hplace, hstep⟩
  · have hbuiltIn : (twice.trace steppedOver).all (fun beat =>
        (beat.state.componentOf? beat.task.instanceId beat.task.component).all
          fun c => c.kind.isBuiltIn) = true := by decide +kernel
    rw [htrace, List.all_append, Bool.and_eq_true] at hbuiltIn
    have hbeat := List.all_eq_true.mp hbuiltIn.1 _ hmem
    simp only [Beat.state, Beat.task, hc, Option.all_some, hk] at hbeat
    cases hbeat

/-- **A breakpoint can be missed**: it is not so that a task that is run at a breakpoint was itself
    held back there, with nothing run since. -/
theorem not_every_breakpoint_hit :
    ¬ ∀ (d : Definition) (e₀ : Engine) (earlier moves : List Move) (past rest : List Beat)
      (b : Engine) (t : Task), build d {} .absent {} = .ok e₀ →
      (e₀.after earlier).skipBreakpoint = none → (∀ m ∈ moves, m.debugs = true) →
      (e₀.after earlier).trace moves = past ++ .ran b t :: rest →
      b.debugger = some .resumed → b.hasBreakpoint t = true → t.continuous = false →
      ∃ e' between,
        HeldBack (e₀.after earlier) moves t e' (between ++ .ran b t :: rest)
        ∧ ∀ beat ∈ between, beat.isHit = true := by
  intro hall
  obtain ⟨past, b, htrace, hmode, hbreak⟩ := trace_steppedOver
  have hu : twice.skipBreakpoint = none := by decide +kernel
  obtain ⟨e', between, ⟨before, allowance, behind, hsplit, -, rfl, hlater⟩, hbetween⟩ :=
    hall twiceDefinition _ [.order ⟨.startFlow 0, none⟩] steppedOver past [] b steppedTask rfl hu
      debugs_steppedOver htrace hmode hbreak rfl
  exact run_before_steppedTask hsplit hmode hbreak hbetween hlater

end Engine

end InstrumentFlow
