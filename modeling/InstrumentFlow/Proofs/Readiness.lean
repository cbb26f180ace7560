import InstrumentFlow.Proofs.Lasting

/-!
# What a component finds when it starts

A task is queued when its component is ready, and the inputs are looked at once more when its turn
comes. A task by which a component is to go on is not looked at again, for then it has progress; where
another task of the component ended its work in the meantime it starts anew all the same.

* `InputsHeld` -- all inputs that must hold something do;
* `Resumable` -- what a queued continuation finds: progress, or a step that ended the work;
* `lasting_resumable` -- it finds that between all steps;
* `turn_cases`, `turn_of_stepped`, `stepped_turn` -- what a turn does, and what is known when a step
  begins;
* `inputs_at_start` -- what a component without progress finds when its step begins.
-/

namespace InstrumentFlow.Engine

/-! ## 1. Inputs -/

/-- **All inputs hold something** that are neither pulses nor optional. -/
def InputsHeld (e : Engine) (i : InstanceId) (component : Nat) : Prop :=
  ∀ s c, e.instance? i = some s → (e.flowOf s).components[component]? = some c →
    ∀ slot ∈ c.inputs.map UInt16.toNat, (e.flowOf s).isSequenceInput slot = false →
      (e.flowOf s).isOptionalInput slot = false → ∃ v, s.values[slot]? = some v ∧ v ≠ .undefined

theorem isDefined_iff {s : Instance} {slot : Nat} :
    isDefined s slot = true ↔ ∃ v, s.values[slot]? = some v ∧ v ≠ .undefined := by
  unfold isDefined
  rw [Option.any_eq_true]
  refine exists_congr fun v => and_congr_right fun _ => ?_
  cases v <;> simp [Value.isUndefined]

/-- **A component that is ready** when its turn comes finds its inputs. -/
theorem inputsHeld_of_dataReady {e : Engine} {i : InstanceId} {component : Nat} {c : Component}
    (hc : e.componentOf? i component = some c) (h : e.dataReady i component = true) :
    c.kind = .start ∨ c.kind = .catchError ∨ e.InputsHeld i component := by
  unfold dataReady inputsAllow at h
  split at h
  · cases h
  next s hs =>
  rw [componentOf?_flowOf hs] at hc
  dsimp only at h
  rw [hc] at h
  dsimp only at h
  have hslots (h : slotsAllow (e.flowOf s) s c.inputs false = true) : e.InputsHeld i component := by
    intro s' c' hs' hc' slot hslot hpulse hoptional
    obtain rfl : s = s' := Option.some.inj (hs.symm.trans hs')
    obtain rfl : c = c' := Option.some.inj (hc.symm.trans hc')
    unfold slotsAllow at h
    rw [Bool.and_eq_true, List.all_eq_true] at h
    exact isDefined_iff.mp (h.1 slot (List.mem_filter.mpr ⟨hslot, by rw [hpulse, hoptional]; rfl⟩))
  split at h
  · next hk => exact Or.inr (Or.inl hk)
  · next hk => exact Or.inl hk
  · exact Or.inr (Or.inr (hslots h))

/-! ## 2. Continuations -/

/-- **What a queued continuation finds**: its component is a delay or an SCPI component, and it has
    progress, or its last step was not to be continued. -/
def Resumable (e : Engine) (i : InstanceId) (c : Nat) : Prop :=
  ⟨i, c, true⟩ ∈ e.queue.tasks → (e.kindOf? i c = some .delay ∨ e.kindOf? i c = some .scpi)
    ∧ (e.HasFailed i ∨ (e.progress? i c).isSome = true ∨ e.lastEnd? i c = some false)

theorem lastEnd?_endStep (e : Engine) (i : InstanceId) (c : Nat) (midway : Bool) :
    (e.endStep i c midway).lastEnd? i c = some midway := by
  unfold lastEnd? endStep record
  rw [List.findSome?_cons_of_isSome] <;> simp [Event.endOf?]

section

variable {closed : Prop} {e e' : Engine} {i : InstanceId} {c : Nat}

theorem Unmoved.resumable (h : Unmoved i c e e') (hr : e.Resumable i c) : e'.Resumable i c := by
  intro ht
  obtain ⟨hkind, hstate⟩ := hr (h.resumes ht)
  refine ⟨h.kindOf?.symm ▸ hkind, ?_⟩
  rcases hstate with hf | hp | hl
  · exact Or.inl (h.staysFailed hf)
  · rcases h.progress? with hf | hsame
    · exact Or.inl hf
    · exact Or.inr (Or.inl (hsame.symm ▸ hp))
  · exact Or.inr (Or.inr (h.adds.lastEnd?.trans hl))

/-- Where a step is not to be continued, an old continuation has nothing to resume. -/
theorem Resumable.ended {s : Engine} (hr : e.Resumable i c)
    (hq : ⟨i, c, true⟩ ∈ s.queue.tasks → ⟨i, c, true⟩ ∈ e.queue.tasks)
    (hk : s.kindOf? i c = e.kindOf? i c) (hl : s.lastEnd? i c = some false) : s.Resumable i c :=
  fun ht => ⟨hk ▸ (hr (hq ht)).1, Or.inr (Or.inr hl)⟩

/-- A component that was suspended has progress, or its instance fails for want of room. -/
theorem resumable_continueLater {i : InstanceId} {c : Nat} (hl : e.instance? i ≠ none)
    (hk : e.kindOf? i c = some .delay ∨ e.kindOf? i c = some .scpi)
    (hp : (e.progress? i c).isSome = true) : (e.continueLater i c).Resumable i c := by
  intro _
  rcases continueLater_cases e i c with ⟨queue, _, he⟩ | ⟨_, he⟩
  · rw [he]
    exact ⟨hk, Or.inr (Or.inl hp)⟩
  · rw [he]
    have hrelease : Strokes False anybody (e.record (.refused ⟨i, c, true⟩))
        ((e.record (.refused ⟨i, c, true⟩)).releaseProgress i c) :=
      strokes_releaseProgress .refl trivial
    have hfatal := strokes_failFatally hrelease i c FlowError.queueFull.message
    refine ⟨(kindOf?_calm hfatal.calm i c).symm ▸ hk, Or.inl (hasFailed_failFatally ?_ c _)⟩
    exact fun hn => hl (hrelease.calm.none_iff.mp hn)

/-- **A step leaves a continuation** something to resume, or ends what there was. -/
theorem resumable_stepped (handler : Handler) {t : Task} {c : Component} (ht : Due closed e t c)
    (hk : c.kind.keepsProgress = true) (hr : e.Resumable t.instanceId t.component) :
    (closing t.instanceId t.component (execute handler t.instanceId t.component c
      ((e.takeTask t).beginStep t))).Resumable t.instanceId t.component := by
  have hstep := upholds_executeKeeping handler ht.inv ht.builtIn ht.component rfl hk
  have hqueued {s : Engine} (hs : Strokes closed (alone t.instanceId t.component)
      ((e.takeTask t).beginStep t) s)
      (h : ⟨t.instanceId, t.component, true⟩ ∈ s.queue.tasks) :
      ⟨t.instanceId, t.component, true⟩ ∈ e.queue.tasks :=
    List.mem_of_mem_tail (hs.resumes rfl h)
  have hkind {s : Engine} (hs : Strokes closed (alone t.instanceId t.component)
      ((e.takeTask t).beginStep t) s) (midway : Bool) :
      (s.endStep t.instanceId t.component midway).kindOf? t.instanceId t.component
        = e.kindOf? t.instanceId t.component := kindOf?_calm hs.calm _ _
  cases he : execute handler t.instanceId t.component c ((e.takeTask t).beginStep t) with
  | ok r s =>
    have hs := (hstep.of_ok he).1
    cases r with
    | completed => exact hr.ended (fun h => hqueued hs h) (hkind hs false) (lastEnd?_endStep s _ _ false)
    | suspended =>
      obtain ⟨hsuspends, hleft⟩ := left_of_suspended handler ht.inv ht.component rfl ht.builtIn he
      have hmidway : (s.endStep t.instanceId t.component true).kindOf? t.instanceId t.component
          = some c.kind := (hkind hs true).trans ht.kindOf?
      refine resumable_continueLater (e := s.endStep _ _ true) (fun hn => ?_) ?_
        (hleft.kept rfl (hasComponent_of_componentOf? ht.inv ht.component))
      · exact ht.live (hs.calm.none_iff.mp hn)
      · rw [hmidway]
        exact hsuspends.imp (congrArg some) (congrArg some)
  | error err s =>
    have hs := hstep.of_error he
    have hrelease : Strokes closed (alone t.instanceId t.component)
        (s.endStep t.instanceId t.component false)
        ((s.endStep t.instanceId t.component false).releaseProgress t.instanceId t.component) :=
      strokes_releaseProgress .refl ⟨rfl, rfl⟩
    refine hr.ended (fun h => hqueued hs (hrelease.resumes rfl h))
      ((kindOf?_calm hrelease.calm _ _).trans (hkind hs false)) ?_
    exact (hrelease.tells.lastEnd? _ _).trans (lastEnd?_endStep s _ _ false)

theorem lasting_resumable : Lasting closed Resumable where
  fresh hf ht := absurd rfl (hf.queue _ ht)
  unmoved hu hr := hu.resumable hr
  handed {e i c} hi hk hr j k message ht := by
    have hhand : Strokes closed anybody e (e.handOver j k i c message) :=
      strokes_handOver .refl j k hk trivial
    have hkind := (hr (hhand.resumes rfl ht)).1
    rw [show e.kindOf? i c = some .catchError from hk] at hkind
    rcases hkind with hkind | hkind <;> cases hkind
  begins {e t c} ht hk hr hq := by
    have hkind := (hr (List.mem_of_mem_tail hq)).1
    rw [ht.kindOf?] at hkind
    rcases hkind with hkind | hkind
    · rw [Option.some.inj hkind] at hk
      cases hk
    · rw [Option.some.inj hkind] at hk
      cases hk
  ends {e i c} hr := hr.ended id rfl (lastEnd?_endStep e i c false)
  stepped handler ht hk hr := resumable_stepped handler ht hk hr

/-! ## 3. Beginnings of steps -/

/-- **A step begins** only where a task is run in an instance that has not failed, and it is the step
    of that task. -/
theorem stepped_runTask (handler : Handler) (hi : Inv closed e) (hh : e.definition.Hostless)
    {t t' : Task} {news : List Event} (hj : (e.runTask handler t).journal = news ++ e.journal)
    (ht : .stepped t' ∈ news) : t' = t ∧ ∃ s c, e.instance? t.instanceId = some s
      ∧ s.failed = false ∧ e.componentOf? t.instanceId t.component = some c := by
  obtain ⟨news', htold, _, hsteps⟩ := told_runTask hi hh handler t
  obtain rfl : news = news' := List.append_cancel_right (hj.symm.trans htold.journal)
  have hmem : t' ∈ steps news := List.mem_filterMap.mpr ⟨_, List.mem_reverse.mpr ht, rfl⟩
  refine ⟨List.mem_singleton.mp (hsteps.subset hmem), ?_⟩
  rcases runTask_cases hi handler t with hpaces | ⟨s, c, hs, hc, hf, _⟩
  · obtain ⟨news'', htold', hn⟩ := hpaces.tells
    obtain rfl : news = news'' := List.append_cancel_right (hj.symm.trans htold'.journal)
    cases hn _ ht
  · exact ⟨s, c, hs, hf, hc⟩

/-- **What a turn does**: nothing, or the first task of the queue is dropped, or it is run because its
    component was found ready, or because it is to go on. -/
theorem turn_cases (handler : Handler) (e : Engine) (allowance : Option Nat) (report : TickReport) :
    (runTasks handler 1 allowance report e).2.journal = e.journal
    ∨ (∃ t, (runTasks handler 1 allowance report e).2.journal
        = .discarded t :: .taken t :: e.journal)
    ∨ ∃ t ts debugger skipBreakpoint, e.queue.tasks = t :: ts
      ∧ (t.continuous = true ∨ e.dataReady t.instanceId t.component = true)
      ∧ ∃ debugger', (runTasks handler 1 allowance report e).2
        = { (({ e with debugger, skipBreakpoint } : Engine).takeTask t).runTask handler t with
            debugger := debugger' } := by
  cases headway handler 0 allowance report e with
  | rest _ _ _ hr =>
    rw [hr]
    exact Or.inl rfl
  | @drop t ts _ _ hr =>
    rw [hr]
    exact Or.inr (Or.inl ⟨t, rfl⟩)
  | hold t hr =>
    -- the debugger changes nothing but itself
    rw [hr]
    exact Or.inl (congrArg (·.journal) (debuggerBlocks_snd e t))
  | @run t ts _ hq hg hr =>
    refine Or.inr (Or.inr ⟨t, ts, (e.debuggerBlocks t).2.debugger,
      (e.debuggerBlocks t).2.skipBreakpoint, hq, hg, ?_⟩)
    rw [← debuggerBlocks_snd e t]
    rcases hr with ⟨_, hr⟩ | hr
    · exact ⟨some .paused, congrArg (·.2) hr⟩
    · exact ⟨_, congrArg (·.2) hr⟩

/-- **The turn in which a step begins** runs the first task of the queue, which was found ready or is
    to go on. -/
theorem turn_of_stepped (handler : Handler) (hi : Inv closed e) (hh : e.definition.Hostless)
    {allowance : Option Nat} {report : TickReport} {t : Task} {news : List Event}
    (hj : (runTasks handler 1 allowance report e).2.journal = news ++ e.journal)
    (ht : .stepped t ∈ news) : t ∈ e.queue.tasks
      ∧ (t.continuous = true ∨ e.dataReady t.instanceId t.component = true)
      ∧ (∃ s c, e.instance? t.instanceId = some s ∧ s.failed = false
        ∧ e.componentOf? t.instanceId t.component = some c)
      ∧ ∃ debugger skipBreakpoint debugger',
        Inv closed (({ e with debugger, skipBreakpoint } : Engine).takeTask t)
        ∧ (runTasks handler 1 allowance report e).2
          = { (({ e with debugger, skipBreakpoint } : Engine).takeTask t).runTask handler t with
              debugger := debugger' } := by
  rcases turn_cases handler e allowance report with hsame | ⟨t', hdropped⟩
    | ⟨t', ts, debugger, skipBreakpoint, hq, hgoes, debugger', hrun⟩
  · rw [List.self_eq_append_left.mp (hsame.symm.trans hj)] at ht
    cases ht
  · have hnews : [.discarded t', .taken t'] ++ e.journal = news ++ e.journal :=
      hdropped.symm.trans hj
    rw [← List.append_cancel_right hnews] at ht
    simp at ht
  · have hblock : Leaps closed True True e { e with debugger, skipBreakpoint } :=
      leaps_debugger .refl hi debugger skipBreakpoint e.clock
    have hit := (touches_takeTask t').inv (hblock.inv hi)
    obtain ⟨later, htold, _⟩ := told_runTask hit hh handler t'
    have hnews : later ++ [.taken t'] = news := by
      refine List.append_cancel_right (Eq.trans ?_ ((congrArg (·.journal) hrun).symm.trans hj))
      rw [List.append_assoc]
      exact htold.journal.symm
    have hlater : .stepped t ∈ later := by
      rw [← hnews] at ht
      simpa using ht
    obtain ⟨rfl, hstep⟩ := stepped_runTask handler hit hh htold.journal hlater
    exact ⟨hq ▸ List.mem_cons_self, hgoes, hstep, debugger, skipBreakpoint, debugger', hit, hrun⟩

/-- **A step begins in a turn** only where the task is the first of the queue and was found ready,
    or is to go on. -/
theorem stepped_turn (handler : Handler) (hi : Inv closed e) (hh : e.definition.Hostless)
    {allowance : Option Nat} {report : TickReport} {t : Task} {news : List Event}
    (hj : (runTasks handler 1 allowance report e).2.journal = news ++ e.journal)
    (ht : .stepped t ∈ news) : t ∈ e.queue.tasks
      ∧ (t.continuous = true ∨ e.dataReady t.instanceId t.component = true)
      ∧ ∃ s c, e.instance? t.instanceId = some s ∧ s.failed = false
        ∧ e.componentOf? t.instanceId t.component = some c := by
  obtain ⟨hmem, hgoes, hstep, _⟩ := turn_of_stepped handler hi hh hj ht
  exact ⟨hmem, hgoes, hstep⟩

/-- A step that was not told of before the turn begins in it. -/
theorem exists_stepped {e : Engine} (hi : Inv False e) {allowance : Option Nat}
    {report : TickReport} {t : Task}
    (hbefore : (e.journal.any fun event => event.stepped? == some t) = false)
    (hafter : ((runTasks handler 1 allowance report e).2.journal.any
      fun event => event.stepped? == some t) = true) : ∃ news,
    (runTasks handler 1 allowance report e).2.journal = news ++ e.journal ∧ .stepped t ∈ news := by
  have hrun : Leaps False False False e (runTasks handler 1 allowance report e).2 :=
    leaps_runTasks (handlerLeaps_handler False) hi False.elim id .refl 1 allowance report
  obtain ⟨news, ht⟩ := hrun.told hi
  obtain ⟨event, hmem, he⟩ := ht.exists_of_any hbefore hafter
  cases event with
  | stepped t' =>
    obtain rfl : t' = t := by simpa [Event.stepped?] using he
    exact ⟨news, ht.journal, hmem⟩
  | _ => cases he

end

/-- **What a component finds when its step begins.** In every run of flows without components of the
    host, where the host keeps no progress either: when the step of a task begins, its instance has
    not failed, and unless the component has progress, is a start or catches errors, all its inputs
    hold something that are neither pulses nor optional. The one exception is a task by which a delay
    or an SCPI component was to go on, and which finds that its work was ended by another task. -/
theorem inputs_at_start {d : Definition} {config : Config} {dispatcher : Dispatcher}
    {host : Host} {e₀ : Engine} (hb : build d config dispatcher host = .ok e₀) (hh : d.Hostless)
    (moves : List Move) (hk : ∀ m ∈ moves, m.KeepsNothing) (count : Nat) (allowance : Option Nat)
    (report : TickReport) {e : Engine}
    (he : e = (runTasks handler count allowance report (e₀.after moves)).2)
    (allowance' : Option Nat) (report' : TickReport) {news : List Event}
    (hj : (runTasks handler 1 allowance' report' e).2.journal = news ++ e.journal) {t : Task}
    (ht : .stepped t ∈ news) :
    ∃ s c, e.instance? t.instanceId = some s ∧ s.failed = false
      ∧ e.componentOf? t.instanceId t.component = some c
      ∧ (c.kind = .start ∨ c.kind = .catchError
        ∨ (e.progress? t.instanceId t.component).isSome = true
        ∨ e.InputsHeld t.instanceId t.component
        ∨ t.continuous = true ∧ (c.kind = .delay ∨ c.kind = .scpi)
          ∧ e.lastEnd? t.instanceId t.component = some false) := by
  have hsteady : Steady False e := he ▸ steady_between hb hh moves hk count allowance report
  have hresumable : HoldsBut none Resumable e :=
    he ▸ lasting_resumable.between hb hh moves hk count allowance report
  have hrun := leaps_between hb hh moves hk count allowance report
  have hhostless : e.definition.Hostless := by
    rw [he, hrun.definition (inv_build hb False.elim), (build_eq_ok_iff.mp hb).2]
    exact hh
  obtain ⟨hmem, hready, s, c, hs, hf, hc⟩ := stepped_turn handler hsteady.inv hhostless hj ht
  refine ⟨s, c, hs, hf, hc, ?_⟩
  by_cases hcont : t.continuous = true
  · have hlive : e.instance? t.instanceId ≠ none := by
      rw [hs]
      exact Option.some_ne_none s
    have htask : ⟨t.instanceId, t.component, true⟩ ∈ e.queue.tasks := hcont ▸ hmem
    obtain ⟨hkind, hstate⟩ := hresumable _ _ (Option.some_ne_none _).symm hlive htask
    rw [kindOf?, hc, Option.map_some] at hkind
    rcases hstate with ⟨s', hs', hf'⟩ | hp | hl
    · rw [Option.some.inj (hs.symm.trans hs'), hf'] at hf
      cases hf
    · exact Or.inr (Or.inr (Or.inl hp))
    · exact Or.inr (Or.inr (Or.inr (Or.inr
        ⟨hcont, hkind.imp Option.some.inj Option.some.inj, hl⟩)))
  · rcases inputsHeld_of_dataReady hc (hready.resolve_left hcont) with hk | hk | hheld
    · exact Or.inl hk
    · exact Or.inr (Or.inl hk)
    · exact Or.inr (Or.inr (Or.inr (Or.inl hheld)))

/-- A flow in which two others bring the input of a delay in one tick, so that it is queued twice, and a
    third one, run after both tasks, takes the input away. -/
def takenAwayDefinition : Definition :=
  { constants := [.undefined, .null, .int 7, .int 8, .int 0]
    flows :=
      [{ name := "main", inputFlags := [0, 1]
         components :=
          [{ kind := .evalExpr, properties := [{ instructions := [2, 0, 0, 224] }]
             outputs := [{ isSequence := true }, { connections := [⟨2, 0, false⟩] }] },
           { kind := .evalExpr, properties := [{ instructions := [3, 0, 0, 224] }]
             outputs := [{ isSequence := true }, { connections := [⟨2, 0, false⟩] }] },
           { kind := .delay, inputs := [0], properties := [{ instructions := [4, 0, 0, 224] }] },
           { kind := .start, outputs := [{ isSequence := true, connections := [⟨4, 1, true⟩] }] },
           { kind := .evalExpr, inputs := [1], properties := [{ instructions := [0, 0, 0, 224] }]
             outputs := [{ isSequence := true }, { connections := [⟨2, 0, false⟩] }] }] }] }

/-- The flow is started, and in the second tick the delay begins, ends and loses its input. -/
def takenAwayMoves : List Move := [.order ⟨.startFlow 0, none⟩, .tick none, .tick none]

def takenAway : Engine := (built takenAwayDefinition {} .absent {}).after takenAwayMoves

theorem keepsNothing_takenAwayMoves : ∀ m ∈ takenAwayMoves, m.KeepsNothing := by
  simp [takenAwayMoves, Move.KeepsNothing, Command.KeepsNothing]

/-- The delay is in order and has nothing to resume, its input is gone, and in the third tick its step
    begins once more, as it had not before. -/
theorem takenAway_spec :
    takenAwayDefinition.Hostless
    ∧ takenAway.kindOf? ⟨0, 0⟩ 2 = some .delay ∧ ¬ takenAway.HasFailed ⟨0, 0⟩
    ∧ (takenAway.progress? ⟨0, 0⟩ 2).isNone = true
    ∧ (takenAway.instance? ⟨0, 0⟩).any (fun s =>
      (takenAway.flowOf s).components[2]?.any (·.inputs == [0])
        && !(takenAway.flowOf s).isSequenceInput 0 && !(takenAway.flowOf s).isOptionalInput 0
        && !isDefined s 0) = true
    ∧ (takenAway.journal.any fun event => event.stepped? == some ⟨⟨0, 0⟩, 2, true⟩) = false
    ∧ ((runTasks handler 1 none {} takenAway).2.journal.any
      fun event => event.stepped? == some ⟨⟨0, 0⟩, 2, true⟩) = true := by
  decide +kernel

theorem exists_stepped_takenAway : ∃ news,
    (runTasks handler 1 none {} takenAway).2.journal = news ++ takenAway.journal
      ∧ .stepped ⟨⟨0, 0⟩, 2, true⟩ ∈ news := by
  have hb : build takenAwayDefinition {} .absent {}
      = .ok (built takenAwayDefinition {} .absent {}) := rfl
  obtain ⟨_, _, _, _, _, hbefore, hafter⟩ := takenAway_spec
  have h₀ : Inv False (built takenAwayDefinition {} .absent {}) := inv_build hb False.elim
  have hi : Inv False takenAway := inv_after h₀ _ False.elim
  exact exists_stepped hi hbefore hafter

theorem not_inputsHeld_takenAway : ¬ takenAway.InputsHeld ⟨0, 0⟩ 2 := by
  intro h
  obtain ⟨_, _, _, _, hempty, _⟩ := takenAway_spec
  obtain ⟨s, hs, hrest⟩ := (Option.any_eq_true _ _).mp hempty
  simp only [Bool.and_eq_true, Bool.not_eq_true'] at hrest
  obtain ⟨⟨⟨hinputs, hpulse⟩, hoptional⟩, hundefined⟩ := hrest
  obtain ⟨c, hc, hslots⟩ := (Option.any_eq_true _ _).mp hinputs
  have hslot : 0 ∈ c.inputs.map UInt16.toNat := by
    rw [eq_of_beq hslots]
    decide
  have hdefined := isDefined_iff.mpr (h s c hs hc 0 hslot hpulse hoptional)
  exact Bool.false_ne_true (hundefined.symm.trans hdefined)

/-- The delay ended after its first task, and its continuation finds no work that it could resume. -/
theorem inputs_at_start_takenAway :
    build takenAwayDefinition {} .absent {} = .ok (built takenAwayDefinition {} .absent {})
    ∧ takenAwayDefinition.Hostless ∧ (∀ m ∈ takenAwayMoves, m.KeepsNothing)
    ∧ ∃ e news, e = (runTasks handler 0 none {} takenAway).2
        ∧ (runTasks handler 1 none {} e).2.journal = news ++ e.journal
        ∧ .stepped ⟨⟨0, 0⟩, 2, true⟩ ∈ news ∧ e.lastEnd? ⟨0, 0⟩ 2 = some false := by
  have hb : build takenAwayDefinition {} .absent {}
      = .ok (built takenAwayDefinition {} .absent {}) := rfl
  have hzero : takenAway = (runTasks handler 0 none {} takenAway).2 := by rw [runTasks]
  obtain ⟨hh, hkind, _, hnone, _⟩ := takenAway_spec
  obtain ⟨news, hj, ht⟩ := exists_stepped_takenAway
  obtain ⟨s, c, hs, hf, hc, hcases⟩ := inputs_at_start hb hh takenAwayMoves
    keepsNothing_takenAwayMoves 0 none {} hzero none {} hj ht
  have hdelay : c.kind = .delay := by
    rw [kindOf?, hc, Option.map_some] at hkind
    exact Option.some.inj hkind
  refine ⟨hb, hh, keepsNothing_takenAwayMoves, takenAway, news, hzero, hj, ht, ?_⟩
  rcases hcases with hstart | hcatch | hp | hheld | ⟨_, _, hl⟩
  · cases hdelay.symm.trans hstart
  · cases hdelay.symm.trans hcatch
  · rw [Option.isNone_iff_eq_none.mp hnone] at hp
    cases hp
  · exact (not_inputsHeld_takenAway hheld).elim
  · exact hl

/-- Not every component without progress finds its inputs when its step begins. -/
theorem not_inputsHeld_at_start :
    ¬ ∀ (d : Definition) (e₀ e : Engine) (moves : List Move) (news : List Event) (t : Task),
      build d {} .absent {} = .ok e₀ → d.Hostless → (∀ m ∈ moves, m.KeepsNothing) →
      e = e₀.after moves →
      (runTasks handler 1 none {} e).2.journal = news ++ e.journal → .stepped t ∈ news →
      e.kindOf? t.instanceId t.component ≠ some .start →
      e.kindOf? t.instanceId t.component ≠ some .catchError → ¬ e.HasFailed t.instanceId →
      e.progress? t.instanceId t.component = none → e.InputsHeld t.instanceId t.component := by
  intro h
  have hb : build takenAwayDefinition {} .absent {}
      = .ok (built takenAwayDefinition {} .absent {}) := rfl
  obtain ⟨hh, hkind, hsound, hnone, _⟩ := takenAway_spec
  obtain ⟨news, hj, ht⟩ := exists_stepped_takenAway
  refine not_inputsHeld_takenAway (h takenAwayDefinition _ takenAway takenAwayMoves news
    ⟨⟨0, 0⟩, 2, true⟩ hb hh keepsNothing_takenAwayMoves rfl hj ht
    (fun hk => ?_) (fun hk => ?_) hsound (Option.isNone_iff_eq_none.mp hnone))
  · cases hkind.symm.trans hk
  · cases hkind.symm.trans hk

end InstrumentFlow.Engine
