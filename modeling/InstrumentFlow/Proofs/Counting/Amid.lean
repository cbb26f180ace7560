import InstrumentFlow.Proofs.Catching.Mailbox
import InstrumentFlow.Proofs.Delivery
import InstrumentFlow.Proofs.Dialogue.Follow

/-!
# In the middle of a step

A step reads properties, writes its variable, keeps progress, and then sends something. Up to that
moment it has told nobody.

* `Emission`, `Engine.emissions` -- where values were sent from;
* `Computes`, `assign_int` -- what an evaluation and an assignment of an integer change;
* `Amid` -- the middle of a step, before anything is sent;
* `Amid.checkOut`, `Amid.evaluate`, `Amid.assign`, `Amid.settle` -- what a step does until then;
* `SentFrom`, `Reached.sends` -- **a component sends**, which leaves local variables and progress
  alone;
* `kept_tidy` -- and so does what follows the step.
-/

namespace InstrumentFlow

/-! ## 1. Emissions -/

/-- Where a value is sent from: the instance, the component and its output. -/
abbrev Emission := InstanceId × Nat × Nat

def Event.emission? : Event → Option Emission
  | sent i component output _ => some (i, component, output)
  | _ => none

theorem Event.emission?_of_not_isBusiness {event : Event} (h : event.isBusiness = false) :
    event.emission? = none := by
  cases event with
  | sent _ _ _ _ => cases h
  | _ => rfl

namespace Engine

/-- The values that were sent, the latest first. -/
def emissions (e : Engine) : List Emission := e.journal.filterMap Event.emission?

section

variable {e e' : Engine} {i : InstanceId} {c : Nat}

theorem Idles.emissions (h : Idles e e') : e'.emissions = e.emissions := by
  obtain ⟨news, hj, hnews⟩ := h
  unfold Engine.emissions
  rw [hj, List.filterMap_append, List.filterMap_eq_nil_iff.mpr, List.nil_append]
  exact fun event he => Event.emission?_of_not_isBusiness (hnews event he)

theorem Sends.emissions {output : Nat} {v : Value} (h : Sends i c output v e e') :
    e'.emissions = (i, c, output) :: e.emissions := by
  obtain ⟨e₁, hbefore, hafter⟩ := h
  rw [hafter.emissions, ← hbefore.emissions]
  rfl

/-! ## 2. Before anything is sent -/

/-- **The middle of a step**: nothing was sent yet since it began. -/
structure Amid (e₀ e : Engine) : Prop where
  strokes : Strokes False anybody e₀ e
  idles : Idles e₀ e
  stopRequested : e.stopRequested = e₀.stopRequested

/-- What an evaluation may change: the stack, the heap, and whether there was a breakdown. -/
def Computes (e e' : Engine) : Prop :=
  e' = { e with stack := e'.stack, heap := e'.heap, breakdown := e'.breakdown }

theorem computes_runStream (e : Engine) (i : InstanceId) (code : List UInt8)
    (iterators : List Int32) (target : Bool) :
    Computes e (runStream i code iterators target e).2 := by
  unfold runStream
  dsimp only
  split
  · rfl
  · split <;> rfl

theorem breakdown_runStream {e : Engine} {i : InstanceId} {code : List UInt8}
    {iterators : List Int32} {target : Bool} {r : Value × Nat}
    (hr : (runStream i code iterators target e).1 = .ok r) :
    (runStream i code iterators target e).2.breakdown = e.breakdown := by
  unfold runStream at hr ⊢
  dsimp only at hr ⊢
  split at hr
  · rfl
  · cases hr

/-- A result comes without a breakdown. -/
theorem upholds_evaluateProperty_computes (e : Engine) (i : InstanceId) (component property : Nat)
    (iterators : List Int32) (target : Bool) :
    Upholds (Computes e) (fun _ e' => e'.breakdown = e.breakdown)
      (evaluateProperty i component property iterators target) e := by
  unfold evaluateProperty
  refine upholds_get ?_
  split
  · exact upholds_throw rfl
  split
  · exact upholds_throw rfl
  split
  · exact upholds_throw rfl
  next p _ =>
  have hrun := computes_runStream e i p.instructions iterators target
  have hevaluate : Upholds (Computes e) (fun _ e' => e'.breakdown = e.breakdown)
      (evaluateIn (.property property component) i p.instructions iterators target) e := by
    unfold evaluateIn
    refine upholds_get (upholds_set_bind ?_)
    split
    · next hr => exact upholds_pure hrun (breakdown_runStream hr)
    · exact upholds_throw hrun
  exact upholds_bind hevaluate fun _ _ h hb => upholds_pure h hb

/-- The slots of an instance are not where its progress is. -/
theorem content?_setProgress (e : Engine) (i j : InstanceId) (component n : Nat)
    (p : Option Progress) :
    (e.setProgress i component p).content? (.slot j n) = e.content? (.slot j n) := by
  rw [content?_slot, content?_slot, instance?_setProgress]
  split
  · next hj =>
    rw [hj]
    cases e.instance? i <;> rfl
  · rfl

theorem content?_settleProgress (e : Engine) (i j : InstanceId) (component n : Nat)
    (hadProgress : Bool) (p : Option Progress) :
    (e.settleProgress i component hadProgress p).content? (.slot j n) = e.content? (.slot j n) := by
  unfold settleProgress
  split
  · dsimp only
    split
    · exact content?_setProgress e i j component n p
    · exact content?_setProgress e i j component n p
  · rfl

theorem content?_of_forest (h : e'.forest = e.forest) (j : InstanceId) (n : Nat) :
    e'.content? (.slot j n) = e.content? (.slot j n) := by
  rw [content?_slot, content?_slot]
  unfold instance?
  rw [h]

/-- An integer is assigned to a variable that holds an integer. -/
theorem assign_int {slot : Nat} {n : Int32} (h : e.content? (.slot i slot) = some (.int n))
    (component : Nat) (v : Int32) :
    assign i component (.slot i slot) (.int v) e
      = .ok ⟨⟩ ((e.noteAssigned (.slot i slot) (.int v)).writeSlot i slot (.int v)) := by
  obtain ⟨s, hs, hget⟩ := Option.bind_eq_some_iff.mp h
  have hread : resolved .readAssigned (.int v) e = .ok (.int v) e := rfl
  unfold assign
  rw [bind_of_ok hread]
  simp only [get_bind_apply, hs, hget]
  rfl

end

namespace Amid

variable {e₀ e e' : Engine} {i : InstanceId} {c : Nat}

theorem refl (e : Engine) : Amid e e := ⟨.refl, .refl e, rfl⟩

/-- An evaluation in the middle of a step. -/
theorem evaluate (h₀ : Inv False e₀) (h : Amid e₀ e) {property : Nat} {iterators : List Int32}
    {target : Bool} {v : Value}
    (hv : evaluateProperty i c property iterators target e = .ok v e') :
    Amid e₀ e' ∧ e'.forest = e.forest := by
  obtain ⟨hstrokes, _⟩ :=
    (upholds_evaluateProperty h₀ h.strokes i c property iterators target).of_ok hv
  obtain ⟨hrest, _⟩ := (upholds_evaluateProperty_computes e i c property iterators target).of_ok hv
  refine ⟨⟨hstrokes, h.idles.trans ⟨[], ?_, fun _ h => nomatch h⟩, ?_⟩, ?_⟩
  · rw [hrest]
    rfl
  · rw [hrest]
    exact h.stopRequested
  · rw [hrest]

/-- The variable is written. -/
theorem assign (h : Amid e₀ e) (slot : Nat) (v : Value) :
    Amid e₀ ((e.noteAssigned (.slot i slot) v).writeSlot i slot v) where
  strokes := (h.strokes.tail (.note rfl rfl rfl)).tail (.write False.elim)
  idles := (h.idles.tail rfl).trans (.record _ rfl)
  stopRequested := h.stopRequested

/-- The progress of the component is taken away, or put back. -/
theorem settle (h : Amid e₀ e) {k : Kind} (hk : e₀.kindOf? i c = some k) (hadProgress : Bool)
    {p : Option Progress} (hp : ∀ q, p = some q → q.kind? = some k ∧ q.goesOn = false) :
    Amid e₀ (e.settleProgress i c hadProgress p) where
  strokes := strokes_settleProgress h.strokes i c hadProgress (fun _ => trivial)
    (fun q hq => ⟨trivial, ⟨by simp [hp q hq], hk.trans (hp q hq).1.symm⟩,
      fun hgoes => absurd ((hp q hq).2.symm.trans hgoes) Bool.false_ne_true⟩) False.elim
  idles := by
    refine h.idles.trans ?_
    unfold settleProgress
    split
    · dsimp only
      split
      · exact .record _ rfl
      · exact .refl e
    · exact .refl e
  stopRequested := by
    unfold settleProgress
    split
    · dsimp only
      split
      · exact h.stopRequested
      · exact h.stopRequested
    · exact h.stopRequested

theorem checkOut (h : Amid e₀ e) : Amid e₀ (e.setProgress i c none) where
  strokes := h.strokes.tail (.progress (fun _ => trivial) (fun _ hq => nomatch hq) False.elim)
  idles := h.idles.trans ⟨[], rfl, fun _ h => nomatch h⟩
  stopRequested := h.stopRequested

end Amid

/-! ## 3. One value is sent -/

/-- The pulses of a component are inputs. -/
theorem lt_of_mem_sequenceInputs {closed : Prop} {e : Engine} (hi : Inv closed e) {i : InstanceId}
    {s : Instance} (hs : e.instance? i = some s) {c slot : Nat}
    (h : slot ∈ e.sequenceInputs i c) : slot < s.inputCount := by
  obtain ⟨f, hf, hcount, _⟩ := (hi.fits i s hs).flow
  have hflow : e.flowOf s = f := by
    unfold flowOf
    rw [hf, Option.getD_some]
  unfold sequenceInputs at h
  rw [hs] at h
  dsimp only at h
  split at h
  · cases h
  have hpulse := (List.mem_filter.mp h).2
  rw [hcount, ← hflow]
  unfold Flow.isSequenceInput Flow.hasFlag at hpulse
  split at hpulse
  · next hflags => exact (List.getElem?_eq_some_iff.mp hflags).1
  · cases hpulse

/-- The progress of the components stays when a value is sent. -/
theorem Aftermath.progress? {i : InstanceId} {slots targets : List Nat} {e e' : Engine}
    (h : Aftermath i slots targets e e') (c : Nat) : e'.progress? i c = e.progress? i c := by
  have hbearing (e : Engine) : e.progress? i c
      = ((e.instance? i).map Instance.bearing).bind (·.progress? c) := by
    unfold Engine.progress?
    cases e.instance? i <;> rfl
  rw [hbearing e, hbearing e', h.bearing]

/-- **What is different after a value was sent** out of an instance: neither its local variables nor
    the progress of its components. -/
structure SentFrom (i : InstanceId) (c output : Nat) (e e' : Engine) : Prop where
  emissions : e'.emissions = (i, c, output) :: e.emissions
  locals : ∀ s n, e.instance? i = some s → s.inputCount ≤ n →
    e'.content? (.slot i n) = e.content? (.slot i n)
  progress : ∀ k, e'.progress? i k = e.progress? i k

/-- **A component that has sent nothing yet sends a pulse**, and it arrives. -/
theorem Reached.sends {d : Definition} {e : Engine} (h : Reached d e) (hp : e.stopRequested = false)
    {i : InstanceId} {c : Nat} {record : Component} (hc : e.componentOf? i c = some record)
    (output : Nat) :
    ∃ e', propagate i c output .null e = .ok ⟨⟩ e' ∧ SentFrom i c output e e' := by
  have hlive := live_of_componentOf? (hc ▸ Option.some_ne_none record)
  have heq : propagate i c output .null e = .ok ⟨⟩
      ((record.wires output).foldl (delivered i .null) (e.sending i c output .null)) :=
    propagate_eq hp (h.going hlive) hc rfl fun _ => held_of_wires h hc .null
  have haftermath := ((aftermath_sending e i c output .null
      ((record.wires output).map (·.targetComponent.toNat))).mono
      (List.subset_append_left _ ((record.wires output).map (·.targetInput.toNat)))
      (List.Subset.refl _)).trans
    ((aftermath_deliveries i .null (record.wires output) _).mono (List.subset_append_right _ _)
      (List.Subset.refl _))
  refine ⟨_, heq, ?_, fun s n hs hn => haftermath.content n fun hmem => ?_, haftermath.progress?⟩
  · rcases ((upholds_propagate_sent i c output .null).of_ok heq).1 with ⟨hstop, _⟩ | hsends
    · rw [hp, h.going hlive] at hstop
      cases hstop
    · exact hsends.emissions
  · refine absurd ?_ (Nat.not_lt.mpr hn)
    rcases List.mem_append.mp hmem with hown | hwire
    · unfold ownPulses at hown
      split at hown
      · exact lt_of_mem_sequenceInputs h.inv hs hown
      · cases hown
    · obtain ⟨w, hw, rfl⟩ := List.mem_map.mp hwire
      exact (wiredUp_of_inv h.inv hs h.valid).slot w (isWire_of_wires hc hw)

/-! ## 4. After the step -/

/-- **What follows a step** leaves an instance that is still there its local variables and the
    progress of its components. -/
theorem kept_tidy {e : Engine} (hi : Inv False e) {i : InstanceId} {c : Nat}
    (hl : (e.tidy i c).instance? i ≠ none) :
    (∀ s n, e.instance? i = some s → s.inputCount ≤ n →
      (e.tidy i c).content? (.slot i n) = e.content? (.slot i n))
    ∧ ∀ k, (e.tidy i c).progress? i k = e.progress? i k := by
  have hpaces : Paces False nobody e ((e.resetSequenceInputs i c).record (.settled i c)) :=
    (paces_strokes .refl (strokes_resetSequenceInputs .refl i c)).tail
      (.settle (pulsesGone_resetSequenceInputs e i c))
  have hi' := (hpaces.course hi).inv hi
  have haftermath : Aftermath i (e.sequenceInputs i c) [] e
      ((e.resetSequenceInputs i c).record (.settled i c)) :=
    (aftermath_clearSlots e i _ []).trans (aftermath_record _ i _ [] rfl rfl)
  have htidy : e.tidy i c = (e.resetSequenceInputs i c).record (.settled i c) := by
    unfold tidy collect at hl ⊢
    split
    · next hover =>
      rw [if_pos hover] at hl
      exact absurd (free_destroys hi' i).one_gone hl
    · rfl
  rw [htidy]
  exact ⟨fun s n hs hn => haftermath.content n fun hmem =>
    absurd (lt_of_mem_sequenceInputs hi hs hmem) (Nat.not_lt.mpr hn), haftermath.progress?⟩

end Engine

end InstrumentFlow
