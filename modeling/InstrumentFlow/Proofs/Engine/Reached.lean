import InstrumentFlow.Proofs.Engine.Marks
import InstrumentFlow.Proofs.Engine.Run

/-!
# States that a run comes to

* `Deserted` -- once the run has stopped no instance is left;
* `Pace.deserted`, `Leap.deserted` -- every leap keeps it;
* `Reached` -- the states that a run of a sound definition comes to, between and in the middle of
  its steps;
* `reached_after` -- whatever the host does to the program;
* `Reached.inv`, `Reached.valid`, `Reached.going` -- what is known of them.
-/

namespace InstrumentFlow.Engine

/-- **Once the run has stopped no instance is left.** -/
def Deserted (e : Engine) : Prop := e.stopped = true → ∀ i, e.instance? i = none

section

variable {closed hostless stateless : Prop} {own : Leeway} {e e' : Engine}

/-! ## 1. Leaps -/

/-- What stops nothing and lets nobody begin. -/
theorem Deserted.of_back (h : e.Deserted) (hs : e'.stopped = e.stopped)
    (hback : ∀ i, e.instance? i = none → e'.instance? i = none) : e'.Deserted :=
  fun hstopped i => hback i (h (hs.symm.trans hstopped) i)

theorem Deserted.mark (h : e.Deserted) {event : Event} (i : InstanceId) (component : Nat)
    (waits : Bool) : ((e.record event).markAsync i component waits).Deserted := by
  refine h.of_back (SameFrame.markAsync _ i component waits).stopped fun j hj => ?_
  have hnone : (e.record event).instance? j = none := hj
  rw [instance?_markAsync]
  split
  · next hij => rw [← hij, hnone, Option.map_none]
  · exact hnone

theorem Pace.deserted (h : Pace closed own e e') (hv : e.Deserted) : e'.Deserted := by
  cases h with
  | stroke h => exact hv.of_back h.frame.stopped fun i => h.calm.none_iff.mpr
  | await i component => exact hv.mark i component true
  | release child i component => exact hv.mark i component false
  | begin _ hs =>
    intro hstopped
    rw [(SameFrame.arisen e _ _ _ _).stopped, hs] at hstopped
    cases hstopped
  | @call flow f i component hf hl =>
    intro hstopped
    have hframe := (SameFrame.arisen e flow f (some (i, component)) true).trans
      (SameFrame.startAsync _ (some (e.nextId flow f (some (i, component)) true)) i component)
    have hnone : e.forest.get? i = none := hv (hframe.stopped.symm.trans hstopped) i
    simp [Forest.contains, hnone] at hl
  | destroy h =>
    refine hv.of_back (SameFrame.destroys h).stopped fun i hi => ?_
    refine Option.eq_none_iff_forall_ne_some.mpr fun s' hs' => ?_
    obtain ⟨s, hs, _⟩ := h.wanes.survivors i s' hs'
    rw [hs] at hi
    cases hi
  | settle _ | stop => exact hv

theorem Paces.deserted (h : Paces closed own e e') (hv : e.Deserted) : e'.Deserted := by
  induction h with
  | refl => exact hv
  | tail _ h ih => exact h.deserted ih

theorem Strokes.deserted (h : Strokes closed own e e') (hv : e.Deserted) : e'.Deserted :=
  h.paces.deserted hv

theorem deserted_continueLater (hv : e.Deserted) (i : InstanceId) (component : Nat) :
    (e.continueLater i component).Deserted := by
  rcases continueLater_cases e i component with ⟨queue, _, he⟩ | ⟨hq, _⟩
  · rw [he]
    exact hv
  · have hrest : Strokes False nobody _ (e.continueLater i component) := strokes_continueLater hq rfl
    exact hrest.deserted hv

theorem deserted_afterStep {outcome : EStateM.Result FlowError Engine Step}
    (hv : (stateAfter outcome).Deserted) (i : InstanceId) (component : Nat) :
    (afterStep i component outcome).Deserted := by
  match outcome with
  | .ok .completed e => exact hv
  | .ok .suspended e =>
    have hend : (e.endStep i component true).Deserted := hv
    exact deserted_continueLater hend i component
  | .error _ e => exact hv

theorem deserted_runTask (handler : Handler) (hi : Inv closed e) (hh : e.definition.Hostless)
    (hv : e.Deserted) (t : Task) : (e.runTask handler t).Deserted := by
  exact runTask_preserves hi handler (fun c hc => only_componentOf? hh hc)
    (fun _ h hv => h.deserted hv) id (fun c _ hv => deserted_afterStep hv _ _) hv

theorem Leap.deserted (h : Leap closed hostless stateless e e') (hi : Inv closed e)
    (hv : e.Deserted) : e'.Deserted := by
  cases h with
  | pace _ h => exact h.deserted hv
  | raise i component message => exact (strokes_raised hi i component message).deserted hv
  | @task handler t _ hh _ _ =>
    exact deserted_runTask handler ((touches_takeTask t).inv hi) hh hv t
  | resume _ i component => exact deserted_continueLater hv i component
  | restart => exact fun h => nomatch h
  | halt hl => exact fun _ => hl
  | setting he _ =>
    rw [he]
    exact hv
  | keep _ i component state =>
    have hset : Touches closed e (e.setHostState i component state) :=
      touches_setHostState i component state
    refine hv.of_back ?_ fun j => hset.calm.none_iff.mpr
    unfold setHostState allocateProgress releaseProgress
    split <;> split <;> rfl
  | discard _ _ | take _ _ | beginStep _ _ | endStep _ _ _ _ => exact hv

end

/-! ## 2. States of a run -/

/-- **A state that a run of a definition comes to**, also in the middle of a step: the program was
    built from it, and since then the host and the program took leaps. -/
inductive Reached (d : Definition) (e : Engine) : Prop
  | intro {config : Config} {dispatcher : Dispatcher} {host : Host} {e₀ : Engine}
      (hb : build d config dispatcher host = .ok e₀) (h : Leaps False False False e₀ e)

/-- **Whatever the host does to the program**, it comes to such a state. -/
theorem reached_after {d : Definition} {config : Config} {dispatcher : Dispatcher} {host : Host}
    {e₀ : Engine} (hb : build d config dispatcher host = .ok e₀) (moves : List Move) :
    Reached d (e₀.after moves) :=
  ⟨hb, leaps_after (inv_build hb False.elim) False.elim id moves False.elim False.elim⟩

namespace Reached

variable {d : Definition} {e : Engine} (h : Reached d e)
include h

theorem inv : Inv False e := by
  obtain ⟨hb, h⟩ := h
  exact h.inv (inv_build hb False.elim)

theorem definition : e.definition = d := by
  obtain ⟨hb, h⟩ := h
  rw [h.definition (inv_build hb False.elim), (build_eq_ok_iff.mp hb).2]
  rfl

theorem valid : e.definition.validate = .ok () := by
  rw [h.definition]
  obtain ⟨hb, _⟩ := h
  exact (build_eq_ok_iff.mp hb).1

theorem deserted : e.Deserted := by
  obtain ⟨hb, h⟩ := h
  refine h.preserves (fun _ _ hi hl hv => hl.deserted hi hv) (inv_build hb False.elim) ?_
  obtain ⟨_, rfl⟩ := build_eq_ok_iff.mp hb
  exact fun _ => instance?_built _ _ _ _

/-- **With an instance alive the run has not stopped.** -/
theorem going {i : InstanceId} (hl : e.instance? i ≠ none) : e.stopped = false := by
  cases hs : e.stopped with
  | false => rfl
  | true => exact absurd (h.deserted hs i) hl

end Reached

end InstrumentFlow.Engine
