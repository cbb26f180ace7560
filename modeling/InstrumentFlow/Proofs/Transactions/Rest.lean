import InstrumentFlow.Proofs.Engine.Rounds
import InstrumentFlow.Proofs.Engine.Run
import InstrumentFlow.Proofs.Suspension.Order
import InstrumentFlow.Proofs.Transactions.Speech

/-!
# SCPI progress and requests between steps

No component gets the progress of an SCPI component but an SCPI component. The host may keep progress
of its own anywhere. Between steps the progress of every component tells which answer it waits for,
and the journal tells the same.

* `Placed` -- SCPI progress belongs to SCPI components;
* `Paces.placed`, `placed_runTask`, `Leap.placed` -- it stays so in paces, tasks and leaps;
* `placed_built` -- so it is before the first move;
* `Settled` -- progress and journal agree, and every component sent one request at a time;
* `Tends` -- from a settled state comes a settled one, and no answer is given on the way;
* `tends_releaseProgress`, `tends_raiseError`, ... -- what is done between steps;
* `tends_endStep`, `tends_runTask` -- the end of a step; a task;
* `tends_tick`, `tends_runUntilIdle` -- ticks.
-/

namespace InstrumentFlow.Engine

/-- **SCPI progress belongs to SCPI components.** -/
def Placed (e : Engine) : Prop :=
  ∀ i c s, e.progress? i c = some (.scpi s) → e.kindOf? i c = some .scpi

section

variable {closed : Prop} {own : Leeway} {e e' : Engine}

/-! ## 1. Paces -/

theorem Retains.placed (h : Retains e e') (hp : e.Placed) : e'.Placed := by
  intro i c s hs
  obtain ⟨hs', hkind⟩ := h i c _ hs
  exact hkind.trans (hp i c s hs')

theorem Placed.congr (hp : e.Placed) (hd : e'.definition = e.definition)
    (hf : e'.forest = e.forest) : e'.Placed := by
  intro i c s hs
  have hsame : e'.instance? i = e.instance? i := congrArg (·.get? i) hf
  unfold progress? at hs
  rw [hsame] at hs
  have hkind := hp i c s hs
  unfold kindOf? componentOf? at hkind ⊢
  rwa [hsame, hd]

/-- Progress is given that is no SCPI progress, or to an SCPI component. -/
theorem Placed.setProgress (hp : e.Placed) (i : InstanceId) (c : Nat) {p : Option Progress}
    (hk : ∀ s, p = some (.scpi s) → e.kindOf? i c = some .scpi) : (e.setProgress i c p).Placed := by
  have hcalm : Calm e (e.setProgress i c p) :=
    Calm.modifyInstance e i fun s => s.frame_setProgress c p
  intro j k s hs
  rw [kindOf?_calm hcalm]
  rw [progress?_setProgress] at hs
  split at hs
  · next hpair =>
    obtain ⟨rfl, rfl⟩ := hpair
    split at hs
    · exact hk s hs
    · cases hs
  · exact hp j k s hs

theorem Stroke.placed (h : Stroke closed own e e') (hp : e.Placed) : e'.Placed := by
  rcases h.leaves_or with hl | ⟨i, c, p, hk, rfl⟩
  · exact hl.progress.placed hp
  · refine hp.setProgress i c fun s hs => ?_
    rw [hk.suits.2, Option.some.inj hs]
    rfl

theorem Strokes.placed (h : Strokes closed own e e') (hp : e.Placed) : e'.Placed := by
  induction h with
  | refl => exact hp
  | tail _ h ih => exact h.placed ih

theorem Paces.placed (h : Paces closed own e e') (hi : Inv closed e) (hp : e.Placed) :
    e'.Placed := by
  induction h with
  | refl => exact hp
  | tail hs h ih =>
    obtain ⟨e₁, e₂, hl, _, hstrokes, hl'⟩ := h.split (Paces.inv hs hi)
    exact hl'.progress.placed (hstrokes.placed (hl.progress.placed ih))

/-! ## 2. Tasks -/

theorem placed_continueLater (hp : e.Placed) (i : InstanceId) (c : Nat) :
    (e.continueLater i c).Placed := by
  rcases continueLater_cases e i c with ⟨queue, _, he⟩ | ⟨hq, _⟩
  · rw [he]
    exact hp.congr rfl rfl
  · have hrefused : (e.record (.refused ⟨i, c, true⟩)).Placed := hp.congr rfl rfl
    have hrest : Strokes False nobody _ (e.continueLater i c) := strokes_continueLater hq rfl
    exact hrest.placed hrefused

theorem placed_afterStep (i : InstanceId) (c : Nat) {outcome : EStateM.Result FlowError Engine Step}
    (hp : (stateAfter outcome).Placed) : (afterStep i c outcome).Placed := by
  have hend (s : Engine) (midway : Bool) (hp : s.Placed) : (s.endStep i c midway).Placed :=
    hp.congr rfl rfl
  match outcome with
  | .ok .completed s => exact hend s false hp
  | .ok .suspended s => exact placed_continueLater (hend s true hp) i c
  | .error _ s => exact hend s false hp

/-- **A task** gives no SCPI progress to other components. -/
theorem placed_runTask (handler : Handler) (hi : Inv closed e) (hh : e.definition.Hostless)
    (t : Task) (hp : e.Placed) : (e.runTask handler t).Placed := by
  exact runTask_preserves hi handler (fun c hc => only_componentOf? hh hc)
    (fun hi₁ h hp => h.placed hi₁ hp) (fun hp => hp.congr rfl rfl)
    (fun c _ hp => placed_afterStep _ _ hp) hp

/-! ## 3. Runs -/

/-- **Every leap** leaves SCPI progress where it belongs. -/
theorem Leap.placed {hostless stateless : Prop} (h : Leap closed hostless stateless e e')
    (hi : Inv closed e) (hp : e.Placed) : e'.Placed := by
  cases h with
  | @pace own _ _ h =>
    have hpaces : Paces closed own e e' := .single h
    exact hpaces.placed hi hp
  | raise i component message => exact (strokes_raised hi i component message).placed hp
  | @task handler t ts hh _ _ =>
    exact placed_runTask handler ((touches_takeTask t).inv hi) hh t (hp.congr rfl rfl)
  | resume _ i component => exact placed_continueLater hp i component
  | setting he _ => exact hp.congr (by rw [he]) (by rw [he])
  | keep _ i component state =>
    have hset (p : Option Progress) (hn : ∀ s, p ≠ some (.scpi s)) :
        (e.setProgress i component p).Placed :=
      hp.setProgress i component fun s hs => absurd hs (hn s)
    unfold setHostState
    split
    · unfold allocateProgress
      split
      · exact (hset (some (.host _)) fun _ hs => nomatch hs).congr rfl rfl
      · exact hp
    · unfold releaseProgress
      split
      · exact (hset none fun _ hs => nomatch hs).congr rfl rfl
      · exact hp
  | discard _ _ | take _ _ | beginStep _ _ | endStep _ _ _ _ | restart | halt _ =>
    exact hp.congr rfl rfl

theorem placed_built (d : Definition) (config : Config) (dispatcher : Dispatcher) (host : Host) :
    (built d config dispatcher host).Placed := by
  intro i c s hs
  exact absurd (instance?_built d config dispatcher host i) (live_of_progress? hs)

end

/-! ## 4. Settled states -/

/-- **Between steps**: no step is running, every component waits for the answer to the request that
    the journal tells of, and sent one request at a time. -/
structure Settled (e : Engine) : Prop where
  idle : ∀ i c, (exchange i c e.journal).running = false
  waits : ∀ i c, (outstanding? i c e.journal).map (·.transaction) = e.pendingOf i c
  inTurn : ∀ i c, InTurn i c e.journal

/-- From a settled state comes a settled one, and no answer is given on the way. -/
def Tends (e e' : Engine) : Prop := e.Settled → e'.Settled ∧ Uses e e'

section

variable {e e' e'' : Engine}

theorem Tends.refl (e : Engine) : Tends e e := fun hs => ⟨hs, .refl e⟩

theorem Tends.trans (h : Tends e e') (h' : Tends e' e'') : Tends e e'' := by
  intro hs
  obtain ⟨hs', hu⟩ := h hs
  obtain ⟨hs'', hu'⟩ := h' hs'
  exact ⟨hs'', hu.trans hu'⟩

/-- **Where all components are spared** the state stays settled. -/
theorem Aside.tends (h : Aside noOne e e') : Tends e e' := by
  intro hs
  refine ⟨⟨fun i c => ?_, fun i c => ?_, fun i c => h.hushed.inTurn (hs.inTurn i c)⟩, h.uses⟩
  · rw [(h.spares i c rfl).running]
    exact hs.idle i c
  · rcases (h.spares i c rfl).waits with ⟨ho, hp⟩ | ⟨ho, hp⟩
    · rw [ho, hp]
      exact hs.waits i c
    · rw [ho, hp]
      rfl

theorem Mute.tends (h : Mute noOne e e') : Tends e e' := h.aside.tends

/-- A change of what is neither told nor kept in instances. -/
theorem Tends.beside (hf : e'.forest = e.forest) (hl : e'.ledger = e.ledger)
    (hj : e'.journal = e.journal) : Tends e e' := (Mute.beside hf hl hj).tends

/-- Small changes outside of progress are no concern of requests. -/
theorem tolerant_tends : Tolerant noOne Tends where
  refl := .refl
  trans := .trans
  beside := .beside
  record e _ h := (Mute.tolerant.record e h).tends
  modifyInstance e i _ ha hp := (Mute.tolerant.modifyInstance e i ha hp).tends
  setProgress _ _ _ ho _ := nomatch ho
  noteProgress _ _ _ ho := nomatch ho

theorem tends_bury (i : InstanceId) (e : Engine) : Tends e (bury i e).2 := (Aside.bury i e).tends

/-! ## 5. Progress between steps -/

/-- A component loses the progress in which it waits, or gets other progress. -/
theorem tends_changed (e : Engine) (i : InstanceId) (c : Nat) {p : Option Progress}
    (hp : ∀ s, p ≠ some (.scpi s)) :
    Tends e ((e.setProgress i c p).record (.progressChanged i c)) := by
  intro hs
  have hhushed : Adds Event.isSpeech e ((e.setProgress i c p).record (.progressChanged i c)) :=
    ⟨[.progressChanged i c], rfl, fun _ h => List.mem_singleton.mp h ▸ rfl⟩
  have hx (j : InstanceId) (k : Nat) : exchange j k
      ((e.setProgress i c p).record (.progressChanged i c)).journal
        = if i = j ∧ c = k then { exchange j k e.journal with outstanding := none }
          else exchange j k e.journal := by
    split
    · next hpair =>
      obtain ⟨rfl, rfl⟩ := hpair
      refine exchange_progressChanged.trans (if_neg ?_)
      exact fun hr => Bool.false_ne_true ((hs.idle i c).symm.trans hr)
    · next hpair => exact exchange_cons_of_not_disturbs (decide_eq_false hpair)
  have hprogress (j : InstanceId) (k : Nat) :
      ((e.setProgress i c p).record (.progressChanged i c)).progress? j k = _ :=
    progress?_setProgress e i j c k p
  refine ⟨⟨fun j k => ?_, fun j k => ?_, fun j k => hhushed.inTurn (hs.inTurn j k)⟩,
    .of_hushed rfl hhushed⟩
  · rw [hx]
    split
    · exact hs.idle j k
    · exact hs.idle j k
  · unfold outstanding?
    rw [hx]
    by_cases hpair : i = j ∧ c = k
    · obtain ⟨rfl, rfl⟩ := hpair
      rw [if_pos ⟨rfl, rfl⟩]
      refine (pendingOf_eq_none fun s hscpi => ?_).symm
      rw [hprogress, if_pos ⟨rfl, rfl⟩] at hscpi
      split at hscpi
      · exact hp s hscpi
      · cases hscpi
    · rw [if_neg hpair, pendingOf_congr (e := e)]
      · exact hs.waits j k
      · rw [hprogress, if_neg fun h => hpair ⟨h.1.symm, h.2.symm⟩]

theorem tends_releaseProgress (e : Engine) (i : InstanceId) (c : Nat) :
    Tends e (e.releaseProgress i c) := by
  unfold releaseProgress
  split
  · exact tends_changed e i c fun _ h => nomatch h
  · exact .refl e

theorem tends_allocateProgress (e : Engine) (i : InstanceId) (c : Nat) {p : Progress}
    (hp : ∀ s, p ≠ .scpi s) : Tends e (e.allocateProgress i c p) := by
  unfold allocateProgress
  split
  · exact tends_changed e i c fun s h => hp s (Option.some.inj h)
  · exact .refl e

/-- **An error** takes no answer with it, and ends the waiting of the component that catches it. -/
theorem tends_raiseError (e : Engine) (i : InstanceId) (c : Nat) (message : String) :
    Tends e (e.raiseError i c message) := by
  have hfatal (e : Engine) (text : String) : Tends e (e.failFatally i c text) :=
    (Mute.tolerant.failFatally e i c text).tends
  have hroute (catcher : InstanceId) (catchComponent : Nat) :
      Tends e (e.routeError i c catcher catchComponent message) := by
    have hmarked : Mute noOne e _ := Mute.tolerant.markFailed catcher e.chainBound i e
    have hrouted {e : Engine} : Mute noOne e
        (e.record (.routed i c catcher catchComponent message)) := .record e rfl
    have hmark := hmarked.trans hrouted
    have hcaught := hmark.tends.trans
      (tends_allocateProgress _ catcher catchComponent (p := .catchError message) fun _ h => nomatch h)
    unfold routeError
    dsimp only
    generalize (Engine.record _ _).allocateProgress catcher catchComponent _ = e₁ at hcaught ⊢
    have hqueued : Mute noOne e₁ (e₁.enqueue ⟨catcher, catchComponent, false⟩).2 :=
      Mute.tolerant.enqueue e₁ _
    have hqueue := hqueued.tends
    split
    · next e₂ he =>
      rw [he] at hqueue
      exact hcaught.trans hqueue
    · next e₂ he =>
      rw [he] at hqueue
      exact (hcaught.trans hqueue).trans (hfatal e₂ _)
  unfold raiseError
  split
  · exact .refl e
  split
  · exact hfatal e message
  split
  · exact (Mute.tolerant.sendError e i c _ message).tends
  · dsimp only
    split
    · exact hfatal e message
    · exact hroute _ _

theorem tends_continueLater (e : Engine) (i : InstanceId) (c : Nat) :
    Tends e (e.continueLater i c) := by
  have hqueued : Mute noOne e (e.enqueue ⟨i, c, true⟩).2 := Mute.tolerant.enqueue e _
  have hqueue := hqueued.tends
  unfold continueLater
  split
  · next e₁ he =>
    rw [he] at hqueue
    exact hqueue
  · next e₁ he =>
    rw [he] at hqueue
    have hreleased := hqueue.trans (tends_releaseProgress e₁ i c)
    exact hreleased.trans (Mute.tolerant.failFatally _ i c _).tends

end

/-! ## 6. Steps -/

/-- **After a step**, before its end is told: the others were spared, and the component waits for what
    its progress tells, if it was left in the middle of its work. -/
structure Stepped (i : InstanceId) (index : Nat) (e₀ : Engine) (midway : Bool) (e : Engine) :
    Prop where
  uses : Uses e₀ e
  others : ∀ j c, itself i index j c = false → Spares j c e₀ e
  inTurn : ∀ j c, InTurn j c e₀.journal → InTurn j c e.journal
  waits : (if midway then (outstanding? i index e.journal).map (·.transaction) else none)
    = e.pendingOf i index

theorem Speaks.stepped {i : InstanceId} {index : Nat} {e₀ e : Engine} {pending : Option Nat}
    {midway : Bool} (h : Speaks i index e₀ pending e)
    (hw : (if midway then pending else none) = e.pendingOf i index) :
    Stepped i index e₀ midway e :=
  ⟨h.uses, h.others, h.inTurn, h.waits.symm ▸ hw⟩

/-- **The end of a step** is told. -/
theorem tends_endStep {t : Task} {e s : Engine} {midway : Bool}
    (h : Stepped t.instanceId t.component (e.beginStep t) midway s) :
    Tends e (s.endStep t.instanceId t.component midway) := by
  intro hs
  have hbegan : Adds Event.isSpeech e (e.beginStep t) :=
    ⟨[.stepped t], rfl, fun _ h => List.mem_singleton.mp h ▸ rfl⟩
  have hended : Adds Event.isSpeech s (s.endStep t.instanceId t.component midway) :=
    ⟨[.ended t.instanceId t.component midway], rfl, fun _ h => List.mem_singleton.mp h ▸ rfl⟩
  have huses : Uses e (s.endStep t.instanceId t.component midway) := by
    have hfirst : Uses e (e.beginStep t) := .of_hushed rfl hbegan
    have hlast : Uses s (s.endStep t.instanceId t.component midway) := .of_hushed rfl hended
    exact (hfirst.trans h.uses).trans hlast
  -- of the other components neither the beginning nor the end of the step tells anything
  have hother {j : InstanceId} {c : Nat} (ho : itself t.instanceId t.component j c = false) :
      exchange j c (e.beginStep t).journal = exchange j c e.journal
        ∧ exchange j c (s.endStep t.instanceId t.component midway).journal
          = exchange j c s.journal := by
    have hne : ¬ (t.instanceId = j ∧ t.component = c) :=
      fun hpair => of_decide_eq_false ho ⟨hpair.1.symm, hpair.2.symm⟩
    exact ⟨exchange_cons_of_not_disturbs (decide_eq_false hne),
      exchange_cons_of_not_disturbs (decide_eq_false hne)⟩
  have hown : exchange t.instanceId t.component
      (s.endStep t.instanceId t.component midway).journal = _ := exchange_ended midway
  refine ⟨⟨fun j c => ?_, fun j c => ?_, fun j c => ?_⟩, huses⟩
  · cases ho : itself t.instanceId t.component j c with
    | true =>
      obtain ⟨rfl, rfl⟩ := of_decide_eq_true ho
      rw [hown]
    | false =>
      rw [(hother ho).2, (h.others j c ho).running, (hother ho).1]
      exact hs.idle j c
  · cases ho : itself t.instanceId t.component j c with
    | true =>
      obtain ⟨rfl, rfl⟩ := of_decide_eq_true ho
      have hw := h.waits
      unfold outstanding?
      rw [hown]
      cases midway <;> exact hw
    | false =>
      have hpending : (s.endStep t.instanceId t.component midway).pendingOf j c
          = s.pendingOf j c := rfl
      have hpending₀ : (e.beginStep t).pendingOf j c = e.pendingOf j c := rfl
      unfold outstanding?
      rw [(hother ho).2, hpending]
      rcases (h.others j c ho).waits with ⟨hout, hp⟩ | ⟨hout, hp⟩
      · unfold outstanding? at hout
        rw [hout, hp, (hother ho).1, hpending₀]
        exact hs.waits j c
      · unfold outstanding? at hout
        rw [hout, hp]
        rfl
  · exact hended.inTurn (h.inTurn j c (hbegan.inTurn (hs.inTurn j c)))

/-- **A step begins**, and nothing else changes for its component. -/
theorem exchange_beginStep (e : Engine) (t : Task) :
    (exchange t.instanceId t.component (e.beginStep t).journal).running = true
      ∧ outstanding? t.instanceId t.component (e.beginStep t).journal
        = outstanding? t.instanceId t.component e.journal := by
  have hx : exchange t.instanceId t.component (e.beginStep t).journal
      = { exchange t.instanceId t.component e.journal with running := true } :=
    exchange_stepped t.continuous
  unfold outstanding?
  rw [hx]
  exact ⟨rfl, rfl⟩

/-- A step that is suspended leaves its component in the middle of its work. -/
def isMidway (outcome : EStateM.Result FlowError Engine Step) : Bool :=
  match outcome with
  | .ok .suspended _ => true
  | _ => false

section

variable {closed : Prop} {e : Engine} {t : Task} {c : Component} (hi : Inv closed e)
  (hc : e.componentOf? t.instanceId t.component = some c)
include hi hc

/-- **The step of an SCPI component** leaves it waiting for what it sent last, or for nothing. -/
theorem stepped_stepScpi (hk : c.kind = .scpi) (hs : e.Settled) :
    Stepped t.instanceId t.component (e.beginStep t)
      (isMidway (stepScpi t.instanceId t.component c (e.beginStep t)))
      (stateAfter (stepScpi t.instanceId t.component c (e.beginStep t))) := by
  have hib := (touches_beginStep hi t).inv hi
  have hcb : (e.beginStep t).componentOf? t.instanceId t.component = some c := hc
  obtain ⟨hrunning, hwaits⟩ := exchange_beginStep e t
  have hbegun : Speaks t.instanceId t.component (e.beginStep t)
      ((e.beginStep t).pendingOf t.instanceId t.component) (e.beginStep t) := by
    refine ⟨hrunning, ?_, fun _ _ => id, .refl _, fun _ _ _ => .refl _⟩
    rw [hwaits]
    exact hs.waits t.instanceId t.component
  have hspeaks := upholds_speaks_stepScpi hib hcb hbegun
  have hruns : Runs anybody (e.beginStep t) t.instanceId t.component .scpi := by
    refine ⟨fun _ => trivial, ?_, rfl⟩
    rw [kindOf?, hcb, Option.map_some, hk]
  have hends := ends_stepScpi hib .refl hruns c
  unfold Ends at hends
  cases hout : stepScpi t.instanceId t.component c (e.beginStep t) with
  | ok r s =>
    rw [hout] at hends
    obtain ⟨⟨pending, hspoken⟩, hsuspended⟩ := hspeaks.of_ok hout
    cases r with
    | suspended => exact (hsuspended rfl).stepped rfl
    | completed => exact hspoken.stepped (pendingOf_of_empty (hends.empty rfl)).symm
  | error err s =>
    rw [hout] at hends
    obtain ⟨pending, hspoken⟩ := hspeaks.of_error hout
    exact hspoken.stepped (pendingOf_of_empty hends.empty).symm

/-- After the step of another component that component waits for nothing. -/
theorem pendingOf_execute (handler : Handler) (hh : c.kind.isBuiltIn = true) (hk : c.kind ≠ .scpi)
    (hx : e.executing = some (t.instanceId, t.component)) (hp : e.Placed) :
    (stateAfter (execute handler t.instanceId t.component c e)).pendingOf t.instanceId t.component
      = none := by
  have hkind : e.kindOf? t.instanceId t.component = some c.kind := by
    rw [kindOf?, hc, Option.map_some]
  have hnone {e' : Engine} (hp : e'.Placed)
      (hsame : e'.kindOf? t.instanceId t.component = some c.kind) :
      e'.pendingOf t.instanceId t.component = none :=
    pendingOf_eq_none fun s hs => hk (Option.some.inj (hsame.symm.trans (hp _ _ s hs)))
  cases hkeeps : c.kind.keepsProgress with
  | true =>
    have hstrokes := (upholds_executeKeeping handler hi hh hc hx hkeeps).after
    exact hnone (hstrokes.placed hp) ((kindOf?_calm hstrokes.calm _ _).trans hkind)
  | false =>
    have hidle : Upholds (Paces closed nobody e) (fun r _ => r = .completed)
        (execute handler t.instanceId t.component c) e := upholds_executeIdle handler hi hh hkeeps
    have hpaces := hidle.after
    refine pendingOf_eq_none fun s hs => ?_
    obtain ⟨hs', hsame⟩ := hpaces.retains hi _ _ _ hs
    exact hk (Option.some.inj (hkind.symm.trans (hp _ _ s hs')))

/-- **The step of any other component** leaves nobody waiting who did not wait before. -/
theorem stepped_execute (handler : Handler) (hh : c.kind.isBuiltIn = true) (hk : c.kind ≠ .scpi)
    (hp : e.Placed) (hs : e.Settled) :
    Stepped t.instanceId t.component (e.beginStep t)
      (isMidway (execute handler t.instanceId t.component c (e.beginStep t)))
      (stateAfter (execute handler t.instanceId t.component c (e.beginStep t))) := by
  have hib := (touches_beginStep hi t).inv hi
  have hcb : (e.beginStep t).componentOf? t.instanceId t.component = some c := hc
  have haside := (upholds_aside_execute hib handler
    (itself_self t.instanceId t.component) hh hk).after
  have hnone := pendingOf_execute hib hcb handler hh hk rfl (hp.congr rfl rfl)
  generalize execute handler t.instanceId t.component c (e.beginStep t) = outcome
    at haside hnone ⊢
  refine ⟨haside.uses, haside.spares, fun j k => haside.hushed.inTurn, ?_⟩
  rw [hnone]
  -- the component waited for nothing before its step, and sent nothing
  have hsilent : outstanding? t.instanceId t.component (stateAfter outcome).journal = none := by
    obtain ⟨news, hj, hn⟩ := haside.hushed
    rw [hj]
    refine outstanding?_append_none ?_ hn
    have hbefore : e.pendingOf t.instanceId t.component = none := by
      refine pendingOf_eq_none fun s hscpi => hk ?_
      have hkind := hp _ _ s hscpi
      rw [kindOf?, hc, Option.map_some] at hkind
      exact Option.some.inj hkind
    rw [(exchange_beginStep e t).2]
    exact Option.map_eq_none_iff.mp ((hs.waits _ _).trans hbefore)
  rw [hsilent]
  split <;> rfl

end

/-! ## 7. Tasks -/

/-- **What follows from the outcome of a step.** -/
theorem tends_settleOutcome {e : Engine} {t : Task}
    {outcome : EStateM.Result FlowError Engine Step}
    (h : Stepped t.instanceId t.component (e.beginStep t) (isMidway outcome) (stateAfter outcome)) :
    Tends e (settleOutcome t.instanceId t.component outcome) := by
  have hend := tends_endStep h
  match outcome with
  | .ok .completed s => exact hend
  | .ok .suspended s => exact hend.trans (tends_continueLater _ _ _)
  | .error err s =>
    exact (hend.trans (tends_releaseProgress _ _ _)).trans (tends_raiseError _ _ _ _)

/-- **What is known of a state** apart from requests. -/
structure Standing (e : Engine) : Prop where
  inv : Inv False e
  hostless : e.definition.Hostless
  placed : e.Placed

theorem Standing.leaps {e e' : Engine} (hst : e.Standing) (h : Leaps False False False e e') :
    e'.Standing := by
  refine ⟨h.inv hst.inv, ?_, ?_⟩
  · rw [h.definition hst.inv]
    exact hst.hostless
  · exact h.preserves (fun _ _ hi hl hp => hl.placed hi hp) hst.inv hst.placed

/-- **A task**: every component sends one request at a time, and collects what it waits for. -/
theorem tends_runTask {e : Engine} (hst : e.Standing) (handler : Handler) (t : Task) :
    Tends e (e.runTask handler t) := by
  have hi := hst.inv
  unfold runTask
  split
  · exact .refl e
  next s hs =>
  split
  · exact (Mute.tolerant.failFatally e _ _ _).tends
  next c hc =>
  split
  · exact (tends_releaseProgress e _ _).trans (tolerant_tends.tidy tends_bury _ _ _)
  · have hk : e.componentOf? t.instanceId t.component = some c := by
      rw [componentOf?_of_live hs, hc]
      rfl
    have hbuiltIn := only_componentOf? hst.hostless hk
    have hsettle : Tends e (e.runStep handler t c) := by
      intro hsettled
      refine tends_settleOutcome ?_ hsettled
      by_cases hscpi : c.kind = .scpi
      · have hexecute : execute handler t.instanceId t.component c
            = stepScpi t.instanceId t.component c := by
          unfold execute
          rw [hscpi]
        rw [hexecute]
        exact stepped_stepScpi hi hk hscpi hsettled
      · exact stepped_execute hi hk handler hbuiltIn hscpi hst.placed hsettled
    exact hsettle.trans (tolerant_tends.tidy tends_bury _ _ _)

/-! ## 8. Ticks -/

section

variable {handler : Handler} (hh : HandlerLeaps False handler)
include hh

/-- **One tick.** -/
theorem tends_tick {e : Engine} (hst : e.Standing) (allowance : Option Nat) :
    Tends e (e.tick handler allowance).2 :=
  tolerant_tends.tick Standing.inv Standing.leaps hh (fun hst t => tends_runTask hst handler t)
    tends_bury hst allowance

theorem tends_runUntilIdle (allowance : Option Nat) (maxTicks : Nat) {e : Engine}
    (hst : e.Standing) : Tends e (runUntilIdle handler allowance maxTicks e).2 :=
  tolerant_tends.runUntilIdle Standing.inv Standing.leaps hh
    (fun hst t => tends_runTask hst handler t) tends_bury allowance maxTicks hst

end

end InstrumentFlow.Engine
