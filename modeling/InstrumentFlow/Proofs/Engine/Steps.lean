import InstrumentFlow.Proofs.Engine.Errands

/-!
# Steps as rows of strokes

The steps of all components but ends, calls and the components of the host are rows of strokes.

* `upholds_stepEvaluate`, `upholds_stepSetVariable`, ... -- one rule for each kind of component;
* `Runs` -- the step of a component with progress is running;
* `Vacant` -- strokes after which a component has no progress;
* `upholds_stepLoop` -- a loop counts in a local variable, as long as it goes;
* `ends_stepCatch`, `ends_stepDelay`, `ends_stepScpi` -- a step that is not suspended leaves no
  progress, also if it fails.
-/

namespace InstrumentFlow.Engine

section

variable {closed : Prop} {own : Leeway} {e₀ e : Engine} (h₀ : Inv closed e₀)
  (h : Strokes closed own e₀ e)
include h₀ h

/-! ## 1. Steps without progress -/

theorem upholds_stepPass (i : InstanceId) (index : Nat) :
    Upholds (Strokes closed own e₀) (fun r _ => r = .completed) (stepPass i index) e := by
  unfold stepPass
  exact upholds_bind (upholds_pulse h₀ h i index) fun _ e h _ => upholds_pure h rfl

theorem upholds_stepOutput (i : InstanceId) (index : Nat) (c : Component) :
    Upholds (Strokes closed own e₀) (fun r _ => r = .completed) (stepOutput i index c) e := by
  unfold stepOutput
  refine upholds_get ?_
  dsimp only
  split
  · exact upholds_throw h
  · exact upholds_throw h
  · exact upholds_throw h
  · exact upholds_bind (upholds_propagate h₀ h _ _ _ _) fun _ e h _ => upholds_pure h rfl

theorem upholds_stepEvaluate (i : InstanceId) (index : Nat) :
    Upholds (Strokes closed own e₀) (fun r _ => r = .completed) (stepEvaluate i index) e := by
  unfold stepEvaluate
  refine upholds_bind (upholds_evaluateProperty h₀ h i index 0 [] false) fun v e h _ => ?_
  refine upholds_bind (upholds_propagate h₀ h i index 1 v) fun _ e h _ => ?_
  exact upholds_bind (upholds_pulse h₀ h i index) fun _ e h _ => upholds_pure h rfl

theorem upholds_assignPair (i : InstanceId) (index pair : Nat) :
    Upholds (Strokes closed own e₀) (fun _ _ => True) (assignPair i index pair) e := by
  unfold assignPair
  refine upholds_bind (upholds_evaluateProperty h₀ h i index _ [] true) fun d e h hd => ?_
  have haims (hc : closed) : e₀.Aims i d := (Aims.calm h.calm).mp (hd hc)
  refine upholds_bind (upholds_evaluateProperty h₀ h i index _ [] false) fun v e h _ => ?_
  exact upholds_assign h₀ h i index v haims

theorem upholds_assignPairs (i : InstanceId) (index : Nat) (pairs : List Nat) :
    Upholds (Strokes closed own e₀) (fun _ _ => True) (assignPairs i index pairs) e := by
  induction pairs generalizing e with
  | nil => exact upholds_pure h trivial
  | cons pair pairs ih =>
    exact upholds_bind (upholds_assignPair h₀ h i index pair) fun _ e h _ => ih h

theorem upholds_stepSetVariable (i : InstanceId) (index : Nat) (c : Component) :
    Upholds (Strokes closed own e₀) (fun r _ => r = .completed) (stepSetVariable i index c) e := by
  unfold stepSetVariable
  refine upholds_bind (upholds_assignPairs h₀ h i index _) fun _ e h _ => ?_
  exact upholds_bind (upholds_pulse h₀ h i index) fun _ e h _ => upholds_pure h rfl

theorem upholds_stepIsTrue (i : InstanceId) (index : Nat) :
    Upholds (Strokes closed own e₀) (fun r _ => r = .completed) (stepIsTrue i index) e := by
  unfold stepIsTrue
  refine upholds_bind (upholds_evaluateProperty h₀ h i index 0 [] false) fun v e h _ => ?_
  refine upholds_get ?_
  exact upholds_bind (upholds_propagate h₀ h i index _ _) fun _ e h _ => upholds_pure h rfl

theorem upholds_stepLog (i : InstanceId) (index : Nat) :
    Upholds (Strokes closed own e₀) (fun r _ => r = .completed) (stepLog i index) e := by
  unfold stepLog
  refine upholds_bind (upholds_evaluateProperty h₀ h i index 0 [] false) fun v e h _ => ?_
  refine upholds_bind (upholds_textOf h₀ h v) fun text e h _ => upholds_modify_bind ?_
  have hlog := strokes_record h (.logged i index (.info text)) rfl rfl rfl
  exact upholds_bind (upholds_pulse h₀ hlog i index) fun _ e h _ => upholds_pure h rfl

theorem upholds_stepError (i : InstanceId) (index : Nat) :
    Upholds (Strokes closed own e₀) (fun r _ => r = .completed) (stepError i index) e := by
  unfold stepError
  refine upholds_bind (upholds_evaluateProperty h₀ h i index 0 [] false) fun v e h _ => ?_
  exact upholds_bind (upholds_textOf h₀ h v) fun text e h _ => upholds_throw h

end

/-! ## 2. Progress during a step -/

/-- The step of a component of such a kind is running, and the component may have progress. -/
structure Runs (own : Leeway) (e : Engine) (i : InstanceId) (index : Nat)
    (k : Kind) : Prop where
  own : ∀ p, own i index p
  kind : e.kindOf? i index = some k
  executing : e.executing = some (i, index)

theorem Runs.mayKeep {own : Leeway} {e : Engine} {i : InstanceId} {index : Nat}
    {k : Kind} (h : Runs own e i index k) {p : Progress} (hp : p.kind? = some k) :
    ∀ q, some p = some q → e.MayKeep own i index q := by
  rintro q ⟨⟩
  exact ⟨h.own _, ⟨by rw [hp]; exact Option.some_ne_none k, h.kind.trans hp.symm⟩,
    fun _ => h.executing⟩

/-- Progress that is no loop counts nowhere. -/
theorem countsAt_of_ne {e : Engine} {i : InstanceId} {p : Progress} (hp : ∀ l, p ≠ .loop l) :
    e.CountsAt i (some p) := fun l hl => absurd (Option.some.inj hl) (hp l)

section

variable {closed : Prop} {own : Leeway} {e₀ e : Engine}

theorem upholds_checkIn (h : Strokes closed own e₀ e) (i : InstanceId) (index : Nat)
    (hadProgress : Bool) {p : Option Progress} (hn : p = none → own i index none)
    (hk : ∀ q, p = some q → e₀.MayKeep own i index q) (hp : closed → e₀.CountsAt i p) :
    Upholds (Strokes closed own e₀) (fun _ _ => True) (checkIn i index hadProgress p) e :=
  upholds_modify (strokes_settleProgress h i index hadProgress hn hk hp) trivial

/-- The progress of a component is ended, if it has any. -/
theorem upholds_checkOff (h : Strokes closed own e₀ e) {i : InstanceId} {index : Nat}
    (hn : own i index none) (hadProgress : Bool) :
    Upholds (Strokes closed own e₀) (fun _ _ => True) (checkIn i index hadProgress none) e :=
  upholds_checkIn h i index hadProgress (fun _ => hn) (fun _ hq => nomatch hq)
    fun _ => countsAt_none e₀ i

/-- **Strokes were made, and the component has no progress** after them. -/
structure Vacant (closed : Prop) (own : Leeway) (e₀ : Engine) (i : InstanceId)
    (index : Nat) (e : Engine) : Prop where
  strokes : Strokes closed own e₀ e
  empty : e.progress? i index = none

/-- An activity that leaves all progress alone leaves the component without. -/
theorem Vacant.upholds {α : Type} {i : InstanceId} {index : Nat} {Q : α → Engine → Prop}
    {a : Act α} (h : Vacant closed own e₀ i index e)
    (ha : Upholds (Strokes closed untouched e) Q a e) :
    Upholds (Vacant closed own e₀ i index) Q a e := by
  refine ha.mono (fun e' hs => ⟨?_, hs.progress?_none (fun _ => id) h.empty⟩) fun _ _ _ hq => hq
  exact h.strokes.trans (hs.mono fun _ _ _ hn => hn.elim)

theorem Vacant.checkOff {i : InstanceId} {index : Nat} (h : Vacant closed own e₀ i index e)
    (hn : own i index none) (hadProgress : Bool) :
    Upholds (Vacant closed own e₀ i index) (fun _ _ => True) (checkIn i index hadProgress none)
      e := by
  have hoff : Upholds (Strokes closed nobody e) (fun _ _ => True)
      (checkIn i index hadProgress none) e := upholds_checkOff .refl rfl hadProgress
  refine upholds_modify ⟨?_, ?_⟩ trivial
  · exact ((upholds_checkOff h.strokes hn hadProgress).of_ok rfl).1
  · exact (hoff.of_ok rfl).1.progress?_none (fun _ hq => nomatch hq) h.empty

/-- **The end of a step**: where it is completed the component has no progress, and where it is
    suspended it has some. -/
structure Left (closed : Prop) (own : Leeway) (e₀ : Engine) (i : InstanceId)
    (index : Nat) (r : Step) (e : Engine) : Prop where
  strokes : Strokes closed own e₀ e
  empty : r = .completed → e.progress? i index = none
  kept : r = .suspended → e₀.hasComponent i index = true → (e.progress? i index).isSome = true

theorem Vacant.left {i : InstanceId} {index : Nat} {r : Step}
    (h : Vacant closed own e₀ i index e) (hr : r = .completed) : Left closed own e₀ i index r e :=
  ⟨h.strokes, fun _ => h.empty, fun hs => nomatch hr.symm.trans hs⟩

/-- A step that keeps progress is suspended. -/
theorem left_checkIn {i : InstanceId} {index : Nat} (h : Strokes closed own e₀ e)
    (hadProgress : Bool) {p : Progress} (hk : ∀ q, some p = some q → e₀.MayKeep own i index q)
    (hp : ∀ l, p ≠ .loop l) :
    Left closed own e₀ i index .suspended (e.settleProgress i index hadProgress (some p)) := by
  refine ⟨strokes_settleProgress h i index hadProgress (fun h => nomatch h) hk
    fun _ => countsAt_of_ne hp, fun hr => (nomatch hr), fun _ hc => ?_⟩
  rw [progress?_settleProgress (hasComponent_calm h.calm ▸ hc)]
  rfl

end

section

variable {closed : Prop} {own : Leeway} {e₀ e : Engine} (h₀ : Inv closed e₀)
  (h : Strokes closed own e₀ e)
include h₀ h

/-- Progress that is taken away counted in no slot but a local variable. -/
theorem upholds_checkOut {i : InstanceId} {index : Nat} (hn : own i index none) :
    Upholds (Vacant closed own e₀ i index) (fun p _ => closed → e₀.CountsAt i p)
      (checkOut i index) e := by
  have hout : Strokes closed own e₀ (e.setProgress i index none) :=
    strokes_setProgress h i index (fun _ => hn) (fun _ hq => nomatch hq)
      fun _ => countsAt_none e₀ i
  unfold checkOut
  refine upholds_get (upholds_set_bind (upholds_pure ⟨hout, ?_⟩ fun hc => ?_))
  · exact progress?_setProgress_none e i index
  · exact countsAt_progress? h₀ h hc i index

/-! ## 3. Steps that end progress -/

/-- A pulse that is the last of a step. -/
theorem upholds_lastPulse {i : InstanceId} {index : Nat} (hv : Vacant closed own e₀ i index e) :
    Upholds (Vacant closed own e₀ i index) (fun r _ => r = .completed)
      (do pulse i index; return Step.completed) e :=
  upholds_bind (hv.upholds (upholds_pulse (h.inv h₀) .refl i index)) fun _ _ hv _ =>
    upholds_pure hv rfl

/-- **A catch component** keeps no progress, whether it can pass on the error or not. -/
theorem upholds_stepCatch {i : InstanceId} {index : Nat} (hn : own i index none) :
    Upholds (Vacant closed own e₀ i index) (fun r _ => r = .completed) (stepCatch i index) e := by
  unfold stepCatch
  refine upholds_bind (upholds_checkOut h₀ h hn) fun p e hv _ => ?_
  split
  · refine upholds_bind (hv.checkOff hn true) fun _ e hv _ => ?_
    have hi := hv.strokes.inv h₀
    refine upholds_bind (hv.upholds (upholds_propagate hi .refl i index 1 _)) fun _ e hv _ => ?_
    exact upholds_lastPulse h₀ hv.strokes hv
  · exact upholds_pure hv rfl

/-- **A delay** keeps its progress just as long as it is suspended. -/
theorem ends_stepDelay {i : InstanceId} {index : Nat} (hr : Runs own e₀ i index .delay) :
    Ends (Vacant closed own e₀ i index) (Left closed own e₀ i index) (stepDelay i index) e := by
  have hwait {e : Engine} (hs : Strokes closed own e₀ e) (hadProgress : Bool) (wakeAt : Nat) :
      Ends (Vacant closed own e₀ i index) (Left closed own e₀ i index)
        (do checkIn i index hadProgress (some (.delay wakeAt)); return Step.suspended) e :=
    left_checkIn hs hadProgress (hr.mayKeep (p := .delay wakeAt) rfl) fun _ hl => nomatch hl
  unfold stepDelay
  refine ends_bind (upholds_checkOut h₀ h (hr.own none)).ends fun p e hv => ?_
  obtain ⟨hv, _⟩ := hv
  split
  · refine ends_get ?_
    split
    · exact hwait hv.strokes true _
    · refine ends_bind (hv.checkOff (hr.own none) true).ends fun _ e hv => ?_
      exact (upholds_lastPulse h₀ hv.1.strokes hv.1).ends.mono (fun _ => id)
        fun r e he => he.1.left he.2
  · have hi := hv.strokes.inv h₀
    unfold beginDelay
    refine ends_bind (hv.upholds (upholds_evaluateProperty hi .refl i index 0 [] false)).ends
      fun v e hv => ends_get ?_
    obtain ⟨hv, _⟩ := hv
    split
    · exact hwait hv.strokes false _
    · have hi := hv.strokes.inv h₀
      have hbreak : Strokes closed untouched e (e.breakDown .endlessDelay) :=
        strokes_breakDown hi .refl _
      exact ⟨hv.strokes.trans (hbreak.mono fun _ _ _ hn => hn.elim), fun _ => hv.empty,
        fun hs => nomatch hs⟩

/-- **An SCPI component** keeps its progress just as long as it is suspended. -/
theorem ends_stepScpi {i : InstanceId} {index : Nat} (hr : Runs own e₀ i index .scpi)
    (c : Component) :
    Ends (Vacant closed own e₀ i index) (Left closed own e₀ i index) (stepScpi i index c) e := by
  unfold stepScpi
  refine ends_bind (upholds_checkOut h₀ h (hr.own none)).ends fun p e hv => ends_get ?_
  obtain ⟨hv, _⟩ := hv
  dsimp only
  have hi := hv.strokes.inv h₀
  have hparts := hv.upholds (upholds_runParts hi .refl i index (e.flowIndex i) c.payload
    (c.payload.length + 1) (scpiProgress p))
  refine ends_bind (upholds_tryCatch hparts fun err e hv => ?_).ends fun outcome e hv => ?_
  · exact upholds_bind (hv.checkOff (hr.own none) _) fun _ e hv _ => upholds_throw hv
  obtain ⟨hv, _⟩ := hv
  split
  · exact left_checkIn hv.strokes _ (hr.mayKeep rfl) fun _ hl => nomatch hl
  · refine ends_bind (hv.checkOff (hr.own none) _).ends fun _ e hv => ?_
    exact (upholds_lastPulse h₀ hv.1.strokes hv.1).ends.mono (fun _ => id) fun r e he => he.1.left he.2

/-! ## 4. Loops -/

/-- The progress of a loop counts where its variable is. -/
theorem upholds_beginLoop {i : InstanceId} {index : Nat} (hr : Runs own e₀ i index .loop) :
    Upholds (Strokes closed own e₀) (fun r _ => r = .completed) (beginLoop i index) e := by
  unfold beginLoop
  refine upholds_bind (upholds_evaluateProperty h₀ h i index 0 [] true) fun d e h hd => ?_
  have haims (hc : closed) : e₀.Aims i d := (Aims.calm h.calm).mp (hd hc)
  refine upholds_bind (upholds_evaluateProperty h₀ h i index 1 [] false) fun first e h _ => ?_
  refine upholds_bind (upholds_evaluateProperty h₀ h i index 2 [] false) fun limit e h _ => ?_
  refine upholds_bind (upholds_evaluateProperty h₀ h i index 3 [] false) fun step e h _ => ?_
  refine upholds_bind (upholds_assign h₀ h i index first haims) fun _ e h _ => ?_
  refine upholds_bind (upholds_checkIn h i index false (fun h => nomatch h) (hr.mayKeep rfl)
    fun hc l hl => ?_) fun _ e h _ => ?_
  · cases hl
    exact haims hc
  · exact upholds_bind (upholds_pulse h₀ h i index) fun _ e h _ => upholds_pure h rfl

theorem upholds_advanceLoop {i : InstanceId} {index : Nat} (hr : Runs own e₀ i index .loop)
    {l : LoopProgress} (hl : closed → e₀.CountsAt i (some (.loop l))) :
    Upholds (Strokes closed own e₀) (fun r _ => r = .completed) (advanceLoop i index l) e := by
  unfold advanceLoop
  refine upholds_bind (upholds_resolved h₀ h _ _) fun current e h _ => ?_
  split
  · exact upholds_throw h
  · split
    · refine upholds_bind (upholds_checkOff h (hr.own none) true) fun _ e h _ => ?_
      exact upholds_bind (upholds_propagate h₀ h i index 1 _) fun _ e h _ => upholds_pure h rfl
    · refine upholds_bind (upholds_assign h₀ h i index _ fun hc => hl hc l rfl) fun _ e h _ => ?_
      refine upholds_bind (upholds_checkIn h i index true (fun h => nomatch h) (hr.mayKeep rfl) hl)
        fun _ e h _ => ?_
      exact upholds_bind (upholds_pulse h₀ h i index) fun _ e h _ => upholds_pure h rfl

/-- **A loop** counts in no slot but a local variable, in every one of its steps. -/
theorem upholds_stepLoop {i : InstanceId} {index : Nat} (hr : Runs own e₀ i index .loop) :
    Upholds (Strokes closed own e₀) (fun r _ => r = .completed) (stepLoop i index) e := by
  unfold stepLoop
  refine upholds_bind_within (R := fun p e => Strokes closed own e₀ e
    ∧ (closed → e₀.CountsAt i p)) (fun p e hok => ?_) (fun err e herror => ?_) fun p e hp => ?_
  · obtain ⟨hv, hp⟩ := (upholds_checkOut h₀ h (hr.own none)).of_ok hok
    exact ⟨hv.strokes, hp⟩
  · exact ((upholds_checkOut h₀ h (hr.own none)).of_error herror).strokes
  obtain ⟨h, hp⟩ := hp
  split
  · exact upholds_advanceLoop h₀ h hr hp
  · exact upholds_beginLoop h₀ h hr

end

end InstrumentFlow.Engine
