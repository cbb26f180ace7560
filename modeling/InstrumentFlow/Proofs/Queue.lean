import InstrumentFlow.Proofs.Queue.Told

/-!
# What becomes of queued tasks

No task gets lost on the way through the queue: it has its turn in the order in which it came, it is
dropped with its instance or at the end of the run, or it is still queued.

* `Accounted` -- the docket between two states agrees with the queues and with the turns;
* `Told.accounted` -- so it does whenever the news tell what became of the queue;
* `executed_add_discarded_le_tick` -- a tick deals with no more tasks than were queued for it;
* `told_move` -- every move of every run is told;
* `accounted_move` -- every move of every run is accounted for.
-/

namespace InstrumentFlow

/-- Whether tasks may be dropped with the event. -/
def Event.isDrop : Event → Bool
  | .destroyed _ | .halted => true
  | _ => false

/-- Whether what stopped the run before is made good or over with the event. -/
def Event.isRelief : Event → Bool
  | .restarted | .halted => true
  | _ => false

namespace Engine

/-! ## 1. Accounts -/

/-- **What became of the tasks** that were queued and of those that came, read off the news between
    two states. -/
structure Accounted (e e' : Engine) (news : List Event) : Prop where
  journal : e'.journal = news ++ e.journal
  /-- The docket lists what was queued and then what came, in order. -/
  listed : (docket e.queue.tasks news).map Ticket.task = e.queue.tasks ++ pushes news
  /-- The turns come in the order of the docket. -/
  taken : withFate .taken (docket e.queue.tasks news) = takes news
  turns : (takes news).Sublist (e.queue.tasks ++ pushes news)
  /-- The queue is the rest of the docket, in its order. -/
  queued : withFate .queued (docket e.queue.tasks news) = e'.queue.tasks
  dropped : ∀ k ∈ docket e.queue.tasks news, k.fate = .dropped →
    .destroyed k.task.instanceId ∈ news ∨ .halted ∈ news
  /-- Where nothing is dropped the turns are the front of all tasks, and the queue is the rest. -/
  whole : (∀ event ∈ news, event.isDrop = false) →
    takes news ++ e'.queue.tasks = e.queue.tasks ++ pushes news
  /-- After the end of a run only tasks are queued that came later. -/
  emptied : ∀ later earlier, news = later ++ .halted :: earlier →
    e'.queue.tasks.Sublist (pushes later)
  /-- At no moment more is queued than the queue can hold. -/
  bounded : ∀ later earlier, news = later ++ earlier →
    (withFate .queued (docket e.queue.tasks earlier)).length ≤ e.queue.capacity

theorem Told.accounted {e e' : Engine} {news : List Event} (h : Told e e' news)
    (hsize : e.queue.size ≤ e.queue.capacity) : Accounted e e' news := by
  have htallies := h.turnovers.tallies
  have hlisted := Turnovers.task_docket e.queue.tasks news
  refine ⟨h.journal, hlisted, htallies.taken_eq, ?_, htallies.queued_eq,
    fun k hk => Turnovers.dropped_docket hk, fun hn => ?_, ?_, ?_⟩
  · rw [← htallies.taken_eq, ← hlisted]
    exact withFate_sublist .taken _
  · refine (htallies.taken_append_queued fun k hk hf => ?_).trans hlisted
    rcases Turnovers.dropped_docket hk hf with hd | hd
    · exact nomatch hn _ hd
    · exact nomatch hn _ hd
  · rintro later earlier rfl
    exact h.turnovers.sublist_of_halted
  · rintro later earlier rfl
    obtain ⟨q, hq, _⟩ := h.turnovers.split
    rw [hq.tallies.queued_eq]
    exact hq.length_le hsize

/-- **A refused task** leaves a stop pending until the run is started again or is over. -/
theorem Told.pending {e e' : Engine} {later earlier : List Event} {t : Task}
    (h : Told e e' (later ++ .refused t :: earlier))
    (hn : ∀ event ∈ later, event.isRelief = false) : e'.stopRequested = true := by
  refine h.stands ?_
  obtain ⟨i, component, before, rest, rfl, _⟩ := h.answered later t earlier rfl
  -- the answer sets the stop, and nothing that comes later takes it back
  rw [List.append_assoc, List.foldr_append, List.cons_append, List.cons_append]
  clear h
  induction rest with
  | nil => rfl
  | cons event rest ih =>
    have hrest := ih fun event' he => hn event' (List.mem_cons_of_mem event he)
    have hrelief := hn event List.mem_cons_self
    rw [List.foldr_cons, hrest]
    cases event with
    | restarted | halted => cases hrelief
    | _ => rfl

/-! ## 2. Ticks -/

theorem executed_add_discarded_le_runTasks (handler : Handler) (count : Nat)
    (allowance : Option Nat) (report : TickReport) (e : Engine) :
    (runTasks handler count allowance report e).1.executed
        + (runTasks handler count allowance report e).1.discarded
      ≤ report.executed + report.discarded + count := by
  -- along the turns: each of them counts once, on either side
  induction count generalizing allowance report e with
  | zero => exact Nat.le_refl _
  | succ count ih =>
    cases headway handler count allowance report e with
    | rest _ hx hd hr =>
      rw [hr, hx, hd]
      exact Nat.le_add_right _ _
    | drop _ _ hr =>
      rw [hr]
      refine Nat.le_trans (ih _ _ _) ?_
      dsimp only
      omega
    | hold _ hr =>
      rw [hr]
      exact Nat.le_add_right _ _
    | run _ _ _ hr =>
      rcases hr with ⟨_, hr⟩ | hr
      · rw [hr]
        dsimp only
        omega
      · rw [hr]
        refine Nat.le_trans (ih _ _ _) ?_
        dsimp only
        omega

/-- **A tick deals with no more tasks than were queued for it.** -/
theorem executed_add_discarded_le_tick (handler : Handler) (allowance : Option Nat) (e : Engine) :
    (e.tick handler allowance).1.executed + (e.tick handler allowance).1.discarded
      ≤ e.queue.size := by
  unfold tick
  split
  · have h := executed_add_discarded_le_runTasks handler e.queue.size allowance {} e
    exact Nat.le_trans h (Nat.le_of_eq (Nat.zero_add _))
  · exact Nat.zero_le _

/-! ## 3. Every run -/

/-- What the queue can hold stays as it was configured, and the queue holds no more. -/
theorem size_le_after {d : Definition} {config : Config} {dispatcher : Dispatcher} {host : Host}
    {e₀ : Engine} (hb : build d config dispatcher host = .ok e₀) (moves : List Move) :
    (e₀.after moves).queue.capacity = config.queueCapacity
      ∧ (e₀.after moves).queue.size ≤ config.queueCapacity := by
  have h₀ : Inv False e₀ := inv_build hb False.elim
  have hrun : Leaps False False False e₀ (e₀.after moves) :=
    leaps_after h₀ False.elim id moves False.elim False.elim
  obtain ⟨news, ht⟩ := hrun.told h₀
  obtain ⟨_, rfl⟩ := build_eq_ok_iff.mp hb
  exact ⟨ht.capacity, ht.turnovers.length_le (Nat.zero_le _)⟩

/-- **Every move of every run is told.** -/
theorem told_move {d : Definition} {config : Config} {dispatcher : Dispatcher} {host : Host}
    {e₀ : Engine} (hb : build d config dispatcher host = .ok e₀) (moves : List Move) (m : Move) :
    ∃ news, Told (e₀.after moves) ((e₀.after moves).move m) news := by
  have h₀ : Inv False e₀ := inv_build hb False.elim
  have hi : Inv False (e₀.after moves) := inv_after h₀ moves False.elim
  have hmove : Leaps False False False (e₀.after moves) ((e₀.after moves).move m) :=
    leaps_move hi False.elim id .refl m False.elim False.elim
  exact hmove.told hi

/-- **Every move of every run is accounted for.** The turns of tasks come in the order in which the
    tasks came, and the queue is left with the others in that order, without those that were dropped
    with their instances or at the end of the run. It never holds more than it was configured for,
    a tick deals with no more tasks than were queued for it, and every task that is refused is
    answered at once by a fatal error, which leaves a stop pending. -/
theorem accounted_move {d : Definition} {config : Config} {dispatcher : Dispatcher} {host : Host}
    {e₀ : Engine} (hb : build d config dispatcher host = .ok e₀) (moves : List Move) (m : Move) :
    (e₀.after moves).queue.capacity = config.queueCapacity
    ∧ (∃ news, Accounted (e₀.after moves) ((e₀.after moves).move m) news
        ∧ ∀ later t earlier, news = later ++ .refused t :: earlier →
          IsAnswer t later
          ∧ ((∀ event ∈ later, event.isRelief = false) →
              ((e₀.after moves).move m).stopRequested = true))
    ∧ ∀ allowance,
        ((e₀.after moves).tick handler allowance).1.executed
            + ((e₀.after moves).tick handler allowance).1.discarded
          ≤ (e₀.after moves).queue.size := by
  obtain ⟨hcapacity, hsize⟩ := size_le_after hb moves
  obtain ⟨news, ht⟩ := told_move hb moves m
  refine ⟨hcapacity, ⟨news, ht.accounted (hcapacity ▸ hsize), ?_⟩,
    fun allowance => executed_add_discarded_le_tick handler allowance _⟩
  rintro later t earlier rfl
  exact ⟨ht.answered later t earlier rfl, ht.pending⟩

/-- A flow whose first component passes its pulse on to two others. -/
def forkDefinition : Definition :=
  { flows :=
      [{ name := "main", inputFlags := [1, 1]
         components :=
          [{ kind := .start
             outputs := [{ isSequence := true, connections := [⟨1, 0, true⟩, ⟨2, 1, true⟩] }] },
           { kind := .noop, inputs := [0] },
           { kind := .noop, inputs := [1] }] }] }

/-- Room for a single task. -/
def narrow : Config := { queueCapacity := 1 }

/-- The flow is started, and the host passes on the pulse while its first task is queued. -/
theorem accounted_move_narrow :
    build forkDefinition narrow .absent {} = .ok (built forkDefinition narrow .absent {})
    ∧ ∃ news later t earlier,
        Accounted ((built forkDefinition narrow .absent {}).after [.order ⟨.startFlow 0, none⟩])
          (((built forkDefinition narrow .absent {}).after [.order ⟨.startFlow 0, none⟩]).move
            (.order ⟨.pulse ⟨0, 0⟩ 0, none⟩)) news
        ∧ news = later ++ .refused t :: earlier ∧ IsAnswer t later := by
  have hb : build forkDefinition narrow .absent {}
      = .ok (built forkDefinition narrow .absent {}) := rfl
  obtain ⟨_, ⟨news, haccount, hrefused⟩, _⟩ :=
    accounted_move hb [.order ⟨.startFlow 0, none⟩] (.order ⟨.pulse ⟨0, 0⟩ 0, none⟩)
  have hafter : ((((built forkDefinition narrow .absent {}).after
      [.order ⟨.startFlow 0, none⟩]).move (.order ⟨.pulse ⟨0, 0⟩ 0, none⟩)).journal.any
        fun | .refused _ => true | _ => false) = true := by decide +kernel
  have hbefore : (((built forkDefinition narrow .absent {}).after
      [.order ⟨.startFlow 0, none⟩]).journal.any fun | .refused _ => true | _ => false)
        = false := by decide +kernel
  rw [haccount.journal, List.any_append, hbefore, Bool.or_false, List.any_eq_true] at hafter
  obtain ⟨event, hmem, he⟩ := hafter
  cases event with
  | refused t =>
    obtain ⟨later, earlier, hnews⟩ := List.append_of_mem hmem
    exact ⟨hb, news, later, t, earlier, haccount, hnews, (hrefused later t earlier hnews).1⟩
  | _ => cases he

/-- A flow with one component of the host. -/
def hostedDefinition : Definition :=
  { flows := [{ name := "main", components := [{ kind := .host 900 }] }] }

/-- The component of this host ends the run and means to go on afterwards. -/
def quittingHost : Host :=
  { components := [(900, [{ orders := [fun _ _ => ⟨.shutdown, none⟩], ending := .suspended }])] }

/-- The state before the tick in which the component ends the run. -/
def quitting : Engine :=
  (built hostedDefinition {} .absent quittingHost).after [.order ⟨.startFlow 0, none⟩]

/-- Not every move drops all tasks of the instances that it destroys. -/
theorem not_dropped_with_instance :
    ¬ ∀ (d : Definition) (host : Host) (e₀ : Engine) (moves : List Move) (m : Move)
      (news : List Event),
      build d {} .absent host = .ok e₀ →
      ((e₀.after moves).move m).journal = news ++ (e₀.after moves).journal →
      ∀ t ∈ ((e₀.after moves).move m).queue.tasks, .destroyed t.instanceId ∉ news := by
  intro h
  have htask : (⟨⟨0, 0⟩, 0, true⟩ : Task) ∈ (quitting.move (.tick none)).queue.tasks := by
    decide +kernel
  have hlives : (quitting.move (.tick none)).lives = [.destroyed ⟨0, 0⟩] ++ quitting.lives := rfl
  have hb : build hostedDefinition {} .absent quittingHost
      = .ok (built hostedDefinition {} .absent quittingHost) := rfl
  obtain ⟨news, ht⟩ := told_move hb [.order ⟨.startFlow 0, none⟩] (.tick none)
  have hjournal : (quitting.move (.tick none)).journal = news ++ quitting.journal := ht.journal
  rw [lives, hjournal, List.filter_append] at hlives
  have hnews : news.filter Event.isLife = [.destroyed ⟨0, 0⟩] := List.append_cancel_right hlives
  have hmem : Event.destroyed ⟨0, 0⟩ ∈ news.filter Event.isLife := hnews ▸ List.mem_cons_self
  exact h hostedDefinition quittingHost _ [.order ⟨.startFlow 0, none⟩] (.tick none) news hb
    ht.journal _ htask (List.mem_filter.mp hmem).1

end Engine

end InstrumentFlow
