import InstrumentFlow.Engine.Schedule
import InstrumentFlow.Proofs.Engine.Course
import InstrumentFlow.Proofs.Engine.Slots
import InstrumentFlow.Proofs.Engine.Steps

/-!
# What happens within one task

A step of a component of the flows, and everything that follows from its outcome, is a row of paces.
No pace takes a task out of the queue but with its instance, and none begins or ends a step.

* `Definition.Only`, `Definition.Hostless` -- which kinds of components there are;
* `Pace`, `Paces` -- strokes, beginnings and ends of instances, and stops that are asked for;
* `Paces.course`, `Paces.frame` -- paces are courses and keep the frame of the run;
* `upholds_pacing` -- rows of strokes among paces;
* `paces_endAsync`, `paces_collect`, `instance?_freeAll` -- ends of instances;
* `upholds_begin`, `upholds_call`, `upholds_stepFinish` -- beginnings, calls and their ends;
* `upholds_executeIdle`, `upholds_executeKeeping` -- steps of components without and with progress;
* `upholds_execute` -- the step of any component of the flows;
* `continueLater_cases`, `strokes_continueLater` -- components that are to go on later;
* `Engine.afterStep`, `runTask_cases`, `paces_settleOutcome` -- what follows from the outcome.
-/

namespace InstrumentFlow

/-! ## 1. Definitions by kinds of components -/

/-- Whether a component is one of the flows' own, not of the host. -/
def Kind.isBuiltIn : Kind → Bool
  | host _ => false
  | _ => true

/-- Whether components of the kind can have progress. -/
def Kind.keepsProgress : Kind → Bool
  | scpi | loop | delay | catchError => true
  | _ => false

/-- Every component of the definition is of an admitted kind. -/
def Definition.Only (d : Definition) (admits : Kind → Bool) : Prop :=
  ∀ f ∈ d.flows, ∀ c ∈ f.components, admits c.kind = true

instance (d : Definition) (admits : Kind → Bool) : Decidable (d.Only admits) :=
  inferInstanceAs (Decidable (∀ f ∈ d.flows, ∀ c ∈ f.components, admits c.kind = true))

/-- **There are no components of the host** in the definition. -/
abbrev Definition.Hostless (d : Definition) : Prop := d.Only Kind.isBuiltIn

namespace Engine

theorem only_componentOf? {e : Engine} {admits : Kind → Bool} (h : e.definition.Only admits)
    {i : InstanceId} {component : Nat} {c : Component} (hc : e.componentOf? i component = some c) :
    admits c.kind = true := by
  unfold componentOf? Definition.component? at hc
  obtain ⟨s, _, hc⟩ := Option.bind_eq_some_iff.mp hc
  obtain ⟨f, hf, hc⟩ := Option.bind_eq_some_iff.mp hc
  exact h f (List.mem_of_getElem? hf) c (List.mem_of_getElem? hc)

/-! ## 2. Paces -/

/-- **One pace**; `own` tells which components may get progress. -/
inductive Pace (closed : Prop) (own : Leeway) (e : Engine) : Engine → Prop
  | stroke {e' : Engine} (h : Stroke closed own e e') : Pace closed own e e'
  /-- The host lets a component wait. -/
  | await (i : InstanceId) (component : Nat) : Pace closed own e (e.startAsync none i component)
  | release (child : Option InstanceId) (i : InstanceId) (component : Nat) :
      Pace closed own e (e.clearAsync child i component)
  /-- An instance begins that nobody called, while the run goes on. -/
  | begin {flow : Nat} {f : Flow} (hf : e.definition.flows[flow]? = some f)
      (hs : e.stopped = false) : Pace closed own e (e.arisen flow f none false)
  /-- A component calls a flow and waits for it. -/
  | call {flow : Nat} {f : Flow} {i : InstanceId} {component : Nat}
      (hf : e.definition.flows[flow]? = some f) (hl : e.forest.contains i = true) :
      Pace closed own e ((e.arisen flow f (some (i, component)) true).startAsync
        (some (e.nextId flow f (some (i, component)) true)) i component)
  | destroy {e' : Engine} {i : InstanceId} (h : Destroys (.one i) e e') : Pace closed own e e'
  /-- A task of a component was dealt with. -/
  | settle {i : InstanceId} {component : Nat} (h : e.PulsesGone i component) :
      Pace closed own e (e.record (.settled i component))
  /-- The run is to stop. -/
  | stop : Pace closed own e { e with stopRequested := true }

/-- Paces in a row. -/
abbrev Paces (closed : Prop) (own : Leeway) : Engine → Engine → Prop :=
  Relation.ReflTransGen (Pace closed own)

section

variable {closed : Prop} {own : Leeway} {e e' : Engine}

theorem Strokes.paces (h : Strokes closed own e e') : Paces closed own e e' :=
  Relation.ReflTransGen.mono (fun _ _ => Pace.stroke) _ _ h

theorem Pace.course (h : Pace closed own e e') (hi : Inv closed e) : Course closed e e' := by
  cases h with
  | stroke h => exact (h.touches hi).course
  | await i component => exact .single (.await i component)
  | release child i component => exact .single (.release child i component)
  | begin hf _ => exact .single (.begin hf)
  | call hf hl => exact .single (.call hf hl)
  | destroy h => exact .single (.destroy h)
  | settle h => exact .single (.touch (.settle h))
  | stop =>
    refine .single (.touch (.aside rfl rfl rfl rfl fun hc => ?_))
    have hs := (hi.plain hc).store
    exact ⟨hs.globals, hs.heap, hs.host⟩

/-- **Paces are a course.** -/
theorem Paces.course (h : Paces closed own e e') (hi : Inv closed e) : Course closed e e' := by
  induction h with
  | refl => exact .refl
  | tail _ h ih => exact ih.trans (h.course (ih.inv hi))

theorem Paces.inv (h : Paces closed own e e') (hi : Inv closed e) : Inv closed e' :=
  (h.course hi).inv hi

/-- More may become of progress. -/
theorem Paces.mono {own' : Leeway} (h : Paces closed own e e')
    (ho : ∀ i c p, own i c p → own' i c p) : Paces closed own' e e' := by
  induction h with
  | refl => exact .refl
  | tail _ h ih =>
    cases h with
    | stroke h =>
      have hstrokes : Strokes closed own' _ _ := Strokes.mono (.single h) ho
      exact ih.trans hstrokes.paces
    | await i component => exact ih.tail (.await i component)
    | release child i component => exact ih.tail (.release child i component)
    | begin hf hs => exact ih.tail (.begin hf hs)
    | call hf hl => exact ih.tail (.call hf hl)
    | destroy h => exact ih.tail (.destroy h)
    | settle h => exact ih.tail (.settle h)
    | stop => exact ih.tail .stop

end

/-! ## 3. The frame of the run -/

namespace SameFrame

theorem markAsync (e : Engine) (i : InstanceId) (component : Nat) (waits : Bool) :
    SameFrame e (e.markAsync i component waits) := by
  unfold Engine.markAsync
  split
  · exact refl e
  · split
    · exact ⟨rfl, rfl, rfl, rfl, rfl, rfl, rfl, rfl, rfl, id⟩
    · exact refl e

theorem record (e : Engine) (event : Event) : SameFrame e (e.record event) :=
  ⟨rfl, rfl, rfl, rfl, rfl, rfl, rfl, rfl, rfl, id⟩

theorem clearAsync (e : Engine) (child : Option InstanceId) (i : InstanceId) (component : Nat) :
    SameFrame e (e.clearAsync child i component) :=
  (record e _).trans (markAsync _ i component false)

theorem startAsync (e : Engine) (child : Option InstanceId) (i : InstanceId) (component : Nat) :
    SameFrame e (e.startAsync child i component) :=
  (record e _).trans (markAsync _ i component true)

theorem buried (e : Engine) (i : InstanceId) (forest : Forest) :
    SameFrame e ((e.stripped i).buried i forest) := by
  have hstrip : SameFrame e (e.stripped i) :=
    have hstrokes : Strokes False nobody e (e.stripped i) := strokes_stripped .refl fun _ => rfl
    hstrokes.frame
  exact hstrip.trans ⟨rfl, rfl, rfl, rfl, rfl, rfl, rfl, rfl, rfl, id⟩

theorem destroys {job : Job} {e e' : Engine} (h : Destroys job e e') : SameFrame e e' := by
  induction h with
  | gone _ | nil | unheard _ => exact refl _
  | root _ _ _ _ ihk => exact ihk.trans (buried _ _ _)
  | called _ _ _ _ _ ihk ihw => exact (ihk.trans (buried _ _ _)).trans ihw
  | again _ _ _ ihk => exact ihk.trans ⟨rfl, rfl, rfl, rfl, rfl, rfl, rfl, rfl, rfl, id⟩
  | cons _ _ ihk ihks => exact ihk.trans ihks
  | heard _ _ => exact clearAsync _ _ _ _
  | falls _ _ _ ih => exact (clearAsync _ _ _ _).trans ih

theorem arisen (e : Engine) (flow : Nat) (f : Flow) (parent : Option (InstanceId × Nat))
    (isAction : Bool) : SameFrame e (e.arisen flow f parent isAction) := by
  have hbegun : SameFrame e (e.begun flow f parent isAction) :=
    ⟨rfl, rfl, rfl, rfl, rfl, rfl, rfl, rfl, rfl, id⟩
  have hpings : Strokes False nobody _ (e.arisen flow f parent isAction) :=
    strokes_arisen flow f parent isAction
  exact hbegun.trans hpings.frame

end SameFrame

theorem Pace.frame {closed : Prop} {own : Leeway} {e e' : Engine}
    (h : Pace closed own e e') : SameFrame e e' := by
  cases h with
  | stroke h => exact h.frame
  | await i component => exact SameFrame.startAsync e none i component
  | release child i component => exact SameFrame.clearAsync e child i component
  | begin _ _ => exact SameFrame.arisen e _ _ _ _
  | call _ _ => exact (SameFrame.arisen e _ _ _ _).trans (SameFrame.startAsync _ _ _ _)
  | destroy h => exact SameFrame.destroys h
  | settle _ => exact SameFrame.record e _
  | stop => exact ⟨rfl, rfl, rfl, rfl, rfl, rfl, rfl, rfl, rfl, fun _ => rfl⟩

/-- **Paces keep the frame of the run.** -/
theorem Paces.frame {closed : Prop} {own : Leeway} {e e' : Engine}
    (h : Paces closed own e e') : SameFrame e e' := by
  induction h with
  | refl => exact SameFrame.refl e
  | tail _ h ih => exact ih.trans h.frame

section

variable {closed : Prop} {own : Leeway} {e₀ e : Engine}

/-! ## 4. Rows of strokes among paces -/

/-- An activity that is a row of strokes goes on along paces. -/
theorem upholds_pacing {α : Type} {Q : α → Engine → Prop} {a : Act α}
    (h : Paces closed own e₀ e) (ha : Upholds (Strokes closed own e) Q a e) :
    Upholds (Paces closed own e₀) Q a e :=
  ha.mono (fun _ hs => h.trans hs.paces) fun _ _ _ hq => hq

theorem paces_strokes {e' : Engine} (h : Paces closed own e₀ e) (hs : Strokes closed own e e') :
    Paces closed own e₀ e' := h.trans hs.paces

theorem paces_record (h : Paces closed own e₀ e) (event : Event) (hl : event.isLife = false)
    (ht : event.isTraffic = false) (hc : event.isCourse = false) :
    Paces closed own e₀ (e.record event) := h.tail (.stroke (.note hl ht hc))

variable (h₀ : Inv closed e₀) (h : Paces closed own e₀ e)
include h₀ h

/-! ## 5. Ends -/

theorem paces_freed (i : InstanceId) : Paces closed own e₀ (e.free i) :=
  h.tail (.destroy (free_destroys (h.inv h₀) i))

theorem paces_collect (i : InstanceId) : Paces closed own e₀ (e.collect i) := by
  unfold collect
  split
  · exact paces_freed h₀ h i
  · exact h

theorem paces_endAsync (child : Option InstanceId) (i : InstanceId) (component : Nat) :
    Paces closed own e₀ (e.endAsync child i component) := by
  unfold endAsync endAsyncWith
  split
  · exact h
  · have hclear := h.tail (.release child i component)
    dsimp only
    split
    · exact paces_freed h₀ hclear i
    · exact hclear

theorem paces_freeAll (is : List InstanceId) :
    Paces closed own e₀ (is.foldl (fun e i => e.free i) e) := by
  induction is generalizing e with
  | nil => exact h
  | cons i is ih => exact ih (paces_freed h₀ h i)

omit h₀ h in
theorem destroys_freeAll (hi : Inv closed e) (is : List InstanceId) :
    Destroys (.all is) e (is.foldl (fun e i => e.free i) e) := by
  induction is generalizing e with
  | nil => exact .nil
  | cons i is ih =>
    have hfree := free_destroys hi i
    exact .cons hfree (ih ((hfree.changes hi).inv hi))

omit h₀ h in
/-- **After all roots are freed no instance is left.** -/
theorem instance?_freeAll (hi : Inv closed e) (i : InstanceId) :
    (e.forest.roots.foldl (fun e root => e.free root) e).instance? i = none := by
  have hall := destroys_freeAll hi e.forest.roots
  generalize e.forest.roots.foldl (fun e root => e.free root) e = e' at hall ⊢
  have hi' := (hall.changes hi).inv hi
  refine Option.eq_none_iff_forall_ne_some.mpr fun s hs => ?_
  obtain ⟨r, hr⟩ := hi'.sound.exists_root hs
  obtain ⟨t', ht', hp⟩ := (hi'.sound.mem_roots r).mp hr
  obtain ⟨t, ht, he⟩ := hall.wanes.survivors r t' ht'
  have hroot := (hi.sound.mem_roots r).mpr ⟨t, ht, he.parent_eq ▸ hp⟩
  have hgone := hall.all_gone hroot
  rw [show e'.instance? r = some t' from ht'] at hgone
  cases hgone

theorem paces_tidy (i : InstanceId) (component : Nat) :
    Paces closed own e₀ (e.tidy i component) := by
  have hreset := paces_strokes h (strokes_resetSequenceInputs .refl i component)
  have hsettle := hreset.tail (.settle (pulsesGone_resetSequenceInputs e i component))
  exact paces_collect h₀ hsettle i

/-! ## 6. Beginnings and calls -/

omit h₀ h in
/-- What `create` does: it makes an instance if the flow and the caller are there. -/
theorem create_cases (e : Engine) (flow : Nat) (parent : Option (InstanceId × Nat))
    (isAction : Bool) : (∃ err, create flow parent isAction e = .error err e)
    ∨ ∃ f, e.definition.flows[flow]? = some f
      ∧ (∀ p, parent = some p → e.forest.contains p.1 = true)
      ∧ create flow parent isAction e
        = .ok (e.nextId flow f parent isAction) (e.arisen flow f parent isAction) := by
  unfold create
  rw [get_bind_apply]
  dsimp only
  cases hf : e.definition.flows[flow]? with
  | none => exact Or.inl ⟨.unknownFlow flow, rfl⟩
  | some f =>
    dsimp only
    split
    · exact Or.inl ⟨.invalidInstance, rfl⟩
    · next hp =>
      refine Or.inr ⟨f, rfl, ?_, rfl⟩
      rintro p rfl
      simpa using hp

omit h₀ in
theorem upholds_begin (hs : e.stopped = false) (flow : Nat) :
    Upholds (Paces closed own e₀) (fun _ _ => True) (create flow none false) e := by
  unfold Upholds
  rcases create_cases e flow none false with ⟨err, he⟩ | ⟨f, hf, hp, he⟩
  · rw [he]
    exact h
  · rw [he]
    exact ⟨h.tail (.begin hf hs), trivial⟩

theorem upholds_call (i : InstanceId) (component flow : Nat) :
    Upholds (Paces closed own e₀) (fun _ _ => True) (call i component flow) e := by
  unfold call
  have hcreate := create_cases e flow (some (i, component)) true
  refine upholds_bind_within (R := fun child e' =>
    Paces closed own e₀ (e'.startAsync (some child) i component)) (fun child e' hok => ?_)
    (fun err e' herror => ?_) fun child e' hcall => upholds_modify_bind ?_
  · rcases hcreate with ⟨err, he⟩ | ⟨f, hf, hp, he⟩
    · rw [he] at hok
      cases hok
    · rw [he] at hok
      obtain ⟨rfl, rfl⟩ := EStateM.Result.ok.inj hok
      exact h.tail (.call hf (hp _ rfl))
  · rcases hcreate with ⟨err, he⟩ | ⟨f, hf, hp, he⟩
    · rw [he] at herror
      obtain ⟨_, rfl⟩ := EStateM.Result.error.inj herror
      exact h
    · rw [he] at herror
      cases herror
  refine upholds_get ?_
  split
  · refine upholds_modify_bind (upholds_modify_bind ?_)
    have hfree := paces_record (paces_freed h₀ hcall child)
      (.returned child i component) rfl rfl rfl
    refine upholds_bind (upholds_pacing hfree
      (upholds_pulse (hfree.inv h₀) .refl i component)) fun _ e h _ => upholds_pure h trivial
  · exact upholds_pure hcall trivial

theorem upholds_stepCall (i : InstanceId) (index : Nat) (c : Component) :
    Upholds (Paces closed own e₀) (fun r _ => r = .completed) (stepCall i index c) e := by
  unfold stepCall
  split
  · exact upholds_throw h
  · exact upholds_bind (upholds_call h₀ h i index _) fun _ e h _ => upholds_pure h rfl

theorem upholds_stepFinish (i : InstanceId) :
    Upholds (Paces closed own e₀) (fun r _ => r = .completed) (stepFinish i) e := by
  unfold stepFinish
  refine upholds_get ?_
  split
  · exact upholds_throw h
  split
  · next parent component _ _ =>
    refine upholds_modify_bind ?_
    have hreturn := paces_record h (.returned i parent component) rfl rfl rfl
    have hpulse := upholds_pacing hreturn
      (upholds_pulse (hreturn.inv h₀) .refl parent component)
    refine upholds_bind hpulse fun _ e h _ => upholds_modify_bind ?_
    exact upholds_pure (paces_endAsync h₀ h _ _ _) rfl
  · have hstop := (paces_record h .stopAsked rfl rfl rfl).tail .stop
    exact upholds_modify_bind (upholds_pure hstop rfl)

end

/-! ## 7. Steps -/

section

variable {closed : Prop} (handler : Handler) {e : Engine} {i : InstanceId} {index : Nat}
  {c : Component} (hi : Inv closed e) (hh : c.kind.isBuiltIn = true)
include hi hh

/-- **The step of a component that can have no progress** is a row of paces that leave all progress
    alone, and it is completed. -/
theorem upholds_executeIdle {own : Leeway} (hp : c.kind.keepsProgress = false) :
    Upholds (Paces closed own e) (fun r _ => r = .completed) (execute handler i index c) e := by
  have hstrokes {a : Act Step}
      (ha : Upholds (Strokes closed own e) (fun r _ => r = .completed) a e) :
      Upholds (Paces closed own e) (fun r _ => r = .completed) a e := upholds_pacing .refl ha
  unfold execute
  cases hc : c.kind with
  | start | noop => exact hstrokes (upholds_stepPass hi .refl i index)
  | finish => exact upholds_stepFinish hi .refl i
  | output => exact hstrokes (upholds_stepOutput hi .refl i index c)
  | callAction => exact upholds_stepCall hi .refl i index c
  | evalExpr | constant => exact hstrokes (upholds_stepEvaluate hi .refl i index)
  | setVariable => exact hstrokes (upholds_stepSetVariable hi .refl i index c)
  | isTrue => exact hstrokes (upholds_stepIsTrue hi .refl i index)
  | log => exact hstrokes (upholds_stepLog hi .refl i index)
  | error => exact hstrokes (upholds_stepError hi .refl i index)
  | host _ =>
    rw [hc] at hh
    cases hh
  | _ =>
    rw [hc] at hp
    cases hp

variable (hk : e.componentOf? i index = some c) (hx : e.executing = some (i, index))
include hk hx

/-- **The step of a component that can have progress** is a row of strokes that touch no progress
    but that of the component, and only a delay or an SCPI component is suspended. -/
theorem upholds_executeKeeping (hp : c.kind.keepsProgress = true) :
    Upholds (Strokes closed (alone i index) e)
      (fun r _ => r = .suspended → c.kind = .delay ∨ c.kind = .scpi)
      (execute handler i index c) e := by
  have hruns {k : Kind} (hc : c.kind = k) : Runs (alone i index) e i index k :=
    ⟨fun _ => ⟨rfl, rfl⟩, by rw [kindOf?, hk, Option.map_some, hc], hx⟩
  have hends {k : Kind} {a : Act Step} (hk : k = .delay ∨ k = .scpi)
      (ha : Ends (Vacant closed (alone i index) e i index)
        (Left closed (alone i index) e i index) a e) :
      Upholds (Strokes closed (alone i index) e)
        (fun r _ => r = .suspended → k = .delay ∨ k = .scpi) a e :=
    ha.mono (fun _ hv => hv.strokes) fun r _ hl => ⟨hl.1, fun _ => hk⟩
  unfold execute
  cases hc : c.kind with
  | catchError =>
    have hcatch : Upholds (Vacant closed (alone i index) e i index) (fun r _ => r = .completed)
        (stepCatch i index) e := upholds_stepCatch hi .refl ⟨rfl, rfl⟩
    exact hcatch.mono (fun _ hv => hv.strokes) fun _ _ _ hr hs => nomatch hr.symm.trans hs
  | delay => exact hends (Or.inl rfl) (ends_stepDelay hi .refl (hruns hc))
  | loop =>
    exact (upholds_stepLoop hi .refl (hruns hc)).mono (fun _ => id)
      fun _ _ _ hr hs => nomatch hr.symm.trans hs
  | scpi => exact hends (Or.inr rfl) (ends_stepScpi hi .refl (hruns hc) c)
  | host _ =>
    rw [hc] at hh
    cases hh
  | _ =>
    rw [hc] at hp
    cases hp

/-- **The step of any component of the flows** is a row of paces. It touches no progress but that of
    the component, and only a delay or an SCPI component is suspended. -/
theorem upholds_executeAlone :
    Upholds (Paces closed (alone i index) e)
      (fun r _ => r = .suspended → c.kind = .delay ∨ c.kind = .scpi)
      (execute handler i index c) e := by
  cases hp : c.kind.keepsProgress with
  | true => exact upholds_pacing .refl (upholds_executeKeeping handler hi hh hk hx hp)
  | false =>
    exact (upholds_executeIdle handler hi hh hp).mono (fun _ => id)
      fun _ _ _ hr hs => nomatch hr.symm.trans hs

end

theorem upholds_execute {closed : Prop} (handler : Handler) {e : Engine} {i : InstanceId}
    {index : Nat} {c : Component} (hi : Inv closed e) (hk : e.componentOf? i index = some c)
    (hx : e.executing = some (i, index)) (hh : c.kind.isBuiltIn = true) :
    Upholds (Paces closed anybody e) (fun r _ => r = .suspended → c.kind = .delay ∨ c.kind = .scpi)
      (execute handler i index c) e :=
  (upholds_executeAlone handler hi hh hk hx).mono (fun _ hp => hp.mono fun _ _ _ _ => trivial)
    fun _ _ _ hr => hr

/-! ## 8. Tasks -/

/-- The state after a step, before what is left of it or its error goes on its way. -/
def afterStep (i : InstanceId) (component : Nat)
    (outcome : EStateM.Result FlowError Engine Step) : Engine :=
  match outcome with
  | .ok .completed e => e.endStep i component false
  | .ok .suspended e => (e.endStep i component true).continueLater i component
  | .error _ e => e.endStep i component false

/-- **What becomes of a component that is to go on later**: it is queued again, or its task is
    refused, and then it loses its progress and the error is fatal. -/
theorem continueLater_cases (e : Engine) (i : InstanceId) (c : Nat) :
    (∃ queue, e.queue.push? ⟨i, c, true⟩ = some queue
      ∧ e.continueLater i c = ({ e with queue } : Engine).record (.pushed ⟨i, c, true⟩))
    ∨ (e.queue.push? ⟨i, c, true⟩ = none
      ∧ e.continueLater i c = ((e.record (.refused ⟨i, c, true⟩)).releaseProgress i c).failFatally
        i c FlowError.queueFull.message) := by
  unfold continueLater enqueue
  cases e.queue.push? ⟨i, c, true⟩ with
  | some queue => exact Or.inl ⟨queue, rfl, rfl⟩
  | none => exact Or.inr ⟨rfl, rfl⟩

/-- What follows from a refused task is a row of strokes. -/
theorem strokes_continueLater {closed : Prop} {own : Leeway} {e : Engine} {i : InstanceId} {c : Nat}
    (hq : e.queue.push? ⟨i, c, true⟩ = none) (hn : own i c none) :
    Strokes closed own (e.record (.refused ⟨i, c, true⟩)) (e.continueLater i c) := by
  rcases continueLater_cases e i c with ⟨queue, hpush, _⟩ | ⟨_, he⟩
  · cases hq.symm.trans hpush
  · rw [he]
    exact strokes_failFatally (strokes_releaseProgress .refl hn) i c _

/-- Whether or not the task finds room, the frame of the run is the same. -/
theorem SameFrame.continueLater (e : Engine) (i : InstanceId) (c : Nat) :
    SameFrame e (e.continueLater i c) := by
  rcases continueLater_cases e i c with ⟨queue, hq, he⟩ | ⟨hq, _⟩
  · rw [he]
    exact ⟨rfl, rfl, TaskQueue.capacity_of_push hq, rfl, rfl, rfl, rfl, rfl, rfl, id⟩
  · have hrest : Strokes False nobody _ (e.continueLater i c) := strokes_continueLater hq rfl
    exact (SameFrame.record e _).trans hrest.frame

/-- After a step nobody runs, and but for that the frame of the run is the same. -/
theorem SameFrame.afterStep (i : InstanceId) (c : Nat)
    (outcome : EStateM.Result FlowError Engine Step) :
    SameFrame { stateAfter outcome with executing := none } (afterStep i c outcome) := by
  match outcome with
  | .ok .completed _ => exact .record _ _
  | .ok .suspended _ => exact (SameFrame.record _ _).trans (.continueLater _ i c)
  | .error _ _ => exact .record _ _

/-- The record of a component of a live instance. -/
theorem componentOf?_of_live {e : Engine} {i : InstanceId} {s : Instance}
    (hs : e.instance? i = some s) (component : Nat) :
    e.componentOf? i component = (e.componentRecord s.flow component).toOption := by
  unfold componentOf? componentRecord
  rw [hs, Option.bind_some]
  split
  · next hc => rw [hc]; rfl
  · next hc => rw [hc]; rfl

/-- **What a task does**: it is nothing but paces, or a step and what follows from its outcome. Where
    there is no step, at most the progress of the component is ended. -/
theorem runTask_cases {closed : Prop} {e : Engine} (hi : Inv closed e) (handler : Handler)
    (t : Task) :
    Paces closed (alone t.instanceId t.component) e (e.runTask handler t)
    ∨ ∃ s c, e.instance? t.instanceId = some s ∧ e.componentOf? t.instanceId t.component = some c
      ∧ s.failed = false
      ∧ e.runTask handler t = (settleOutcome t.instanceId t.component
        (execute handler t.instanceId t.component c (e.beginStep t))).tidy
          t.instanceId t.component := by
  unfold runTask
  split
  · exact Or.inl .refl
  next s hs =>
  split
  · exact Or.inl (.single (.stroke (.fatal _ _ _)))
  next c hc =>
  split
  · refine Or.inl (paces_tidy hi ?_ _ _)
    exact (strokes_releaseProgress .refl ⟨rfl, rfl⟩).paces
  · next hf =>
    refine Or.inr ⟨s, c, hs, ?_, by simpa using hf, rfl⟩
    rw [componentOf?_of_live hs, hc]
    rfl

/-- **What follows from the outcome of a step** is a row of strokes. -/
theorem strokes_settleOutcome {closed : Prop} (i : InstanceId) (component : Nat)
    {outcome : EStateM.Result FlowError Engine Step}
    (hi : Inv closed (afterStep i component outcome)) :
    Strokes closed anybody (afterStep i component outcome) (settleOutcome i component outcome) := by
  match outcome with
  | .ok .completed _ => exact .refl
  | .ok .suspended _ => exact .refl
  | .error err e =>
    have hrelease : Strokes closed anybody (e.endStep i component false)
        ((e.endStep i component false).releaseProgress i component) :=
      strokes_releaseProgress .refl trivial
    exact strokes_raiseError hi hrelease (fun _ _ _ => trivial) i component

/-- The component and its instance are tidied after that. -/
theorem paces_settleOutcome {closed : Prop} (i : InstanceId) (component : Nat)
    {outcome : EStateM.Result FlowError Engine Step}
    (hi : Inv closed (afterStep i component outcome)) :
    Paces closed anybody (afterStep i component outcome)
      ((settleOutcome i component outcome).tidy i component) :=
  paces_tidy hi (strokes_settleOutcome i component hi).paces i component

end Engine

end InstrumentFlow
