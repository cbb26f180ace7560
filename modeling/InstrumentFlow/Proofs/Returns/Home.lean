import InstrumentFlow.Proofs.Kinds
import InstrumentFlow.Proofs.Pulses.Account
import InstrumentFlow.Proofs.Returns.Routine

/-!
# How often a call returns

What is told of an instance since it began: which component waits for it, its steps, those of End
components among them, and how often it gave back control.

* `Event.involves` -- a milestone of one instance;
* `returns`, `stepsOf`, `endings` -- what is counted;
* `Bystands` -- no milestone of the instance was reached, and it is the one that was there before;
* `Homing` -- **an instance gives back control with each End component**, to the component that
  waits for it, or once and for all before its first step;
* `Homing.bystands`, `Homing.tells` -- what keeps it so; `Homing.beginStep`, `Homing.finish`;
* `Newborn` -- an instance has only just begun;
* `Newborn.uncalled`, `Newborn.called`, `Newborn.letGo` -- whether it was called, and what for.
-/

namespace InstrumentFlow

/-! ## 1. Milestones of one instance -/

namespace Event

/-- Whether an event is a milestone in the life of this instance. -/
def involves (i : InstanceId) : Event → Bool
  | created j _ => j == i
  | stepped t => t.instanceId == i
  | returned j _ _ => j == i
  | awaited (some j) _ _ => j == i
  | _ => false

/-- The instance gives back control. -/
def isReturn (i : InstanceId) : Event → Bool
  | returned j _ _ => j == i
  | _ => false

/-- A step of the instance begins. -/
def isStepOf (i : InstanceId) : Event → Bool
  | stepped t => t.instanceId == i
  | _ => false

/-- A step of an End component of the instance begins; `flow` is the flow of the instance. -/
def isEnding (d : Definition) (flow : Option Nat) (i : InstanceId) : Event → Bool
  | stepped t => t.instanceId == i
      && (flow.bind (d.component? · t.component)).any (·.kind == .finish)
  | _ => false

/-- Who waits for whom, where a component begins to wait for an instance. -/
def called? : Event → Option (InstanceId × InstanceId × Nat)
  | awaited (some i) p c => some (i, p, c)
  | _ => none

variable {i : InstanceId} {event : Event}

theorem called?_eq_some {p : InstanceId} {c : Nat} (h : event.called? = some (i, p, c)) :
    event = .awaited (some i) p c := by
  cases event with
  | awaited child _ _ =>
    cases child with
    | some _ =>
      cases h
      rfl
    | none => cases h
  | _ => cases h

theorem isMilestone_of_involves (h : event.involves i = true) : event.isMilestone = true := by
  cases event with
  | awaited child _ _ =>
    cases child with
    | some _ => rfl
    | none => cases h
  | created _ _ | stepped _ | returned _ _ _ => rfl
  | _ => cases h

theorem involves_of_isReturn (h : event.isReturn i = true) : event.involves i = true := by
  cases event with
  | returned _ _ _ => exact h
  | _ => cases h

theorem involves_of_isStepOf (h : event.isStepOf i = true) : event.involves i = true := by
  cases event with
  | stepped _ => exact h
  | _ => cases h

theorem isStepOf_of_isEnding {d : Definition} {flow : Option Nat}
    (h : event.isEnding d flow i = true) : event.isStepOf i = true := by
  cases event with
  | stepped _ => exact (Bool.and_eq_true _ _ ▸ h).1
  | _ => cases h

theorem involves_awaited (i p : InstanceId) (c : Nat) :
    (awaited (some i) p c).involves i = true := beq_self_eq_true i

theorem involves_returned (i p : InstanceId) (c : Nat) : (returned i p c).involves i = true :=
  beq_self_eq_true i

theorem isBirth_eq_false (h : event.involves i = false) : event.isBirth i = false := by
  cases event with
  | created _ _ => exact h
  | _ => rfl

theorem isEnding_stepped {d : Definition} {flow : Nat} {t : Task} {c : Component}
    (hc : d.component? flow t.component = some c) :
    (stepped t).isEnding d (some flow) t.instanceId = (c.kind == .finish) := by
  show (t.instanceId == t.instanceId && (d.component? flow t.component).any _) = _
  rw [hc, Option.any_some, beq_self_eq_true, Bool.true_and]

end Event

namespace Engine

/-! ## 2. Counts -/

/-- How often an instance gave back control since it began. -/
def returns (i : InstanceId) (journal : List Event) : Nat :=
  (since i journal).countP (Event.isReturn i)

/-- How many steps of an instance began. -/
def stepsOf (i : InstanceId) (journal : List Event) : Nat :=
  (since i journal).countP (Event.isStepOf i)

/-- **How many of them were steps of End components.** -/
def endings (d : Definition) (i : InstanceId) (journal : List Event) : Nat :=
  (since i journal).countP (Event.isEnding d (flowBegun journal i) i)

section

variable {i : InstanceId} {news : List Event} (hb : ∀ event ∈ news, event.isBirth i = false)
  (journal : List Event)
include hb

theorem since_append : since i (news ++ journal) = news ++ since i journal := by
  induction news with
  | nil => rfl
  | cons event news ih =>
    rw [List.cons_append, since_cons (hb event List.mem_cons_self), List.cons_append,
      ih fun event' hmem => hb event' (List.mem_cons_of_mem event hmem)]

theorem flowBegun_append : flowBegun (news ++ journal) i = flowBegun journal i := by
  unfold flowBegun
  rw [List.findSome?_append, List.findSome?_eq_none_iff.mpr, Option.none_or]
  intro event hmem
  have hbirth := hb event hmem
  cases event with
  | created j flow => exact if_neg fun h => by simp [Event.isBirth, h] at hbirth
  | _ => rfl

theorem returns_append :
    returns i (news ++ journal) = news.countP (Event.isReturn i) + returns i journal := by
  unfold returns
  rw [since_append hb, List.countP_append]

theorem endings_append (d : Definition) : endings d i (news ++ journal)
    = news.countP (Event.isEnding d (flowBegun journal i) i) + endings d i journal := by
  unfold endings
  rw [flowBegun_append hb, since_append hb, List.countP_append]

end

/-- An instance without steps had none of End components. -/
theorem endings_le_stepsOf (d : Definition) (i : InstanceId) (journal : List Event) :
    endings d i journal ≤ stepsOf i journal :=
  List.countP_mono_left fun _ _ => Event.isStepOf_of_isEnding

/-! ## 3. What goes on beside an instance -/

/-- No milestone of the instance was reached, and if it is there it was there before. -/
structure Bystands (i : InstanceId) (e e' : Engine) : Prop where
  news : Adds (Event.involves i) e e'
  kept : ∀ s', e'.instance? i = some s' → ∃ s, e.instance? i = some s ∧ s.SameCall s'

theorem Routine.bystands {e e' : Engine} (h : Routine e e') (i : InstanceId) : Bystands i e e' :=
  ⟨h.news.mono fun _ => Event.isMilestone_of_involves, h.kept i⟩

namespace Bystands

variable {i : InstanceId} {e e' e'' : Engine}

theorem trans (h : Bystands i e e') (h' : Bystands i e' e'') : Bystands i e e'' where
  news := h.news.trans h'.news
  kept s'' hs'' := by
    obtain ⟨s', hs', hsame'⟩ := h'.kept s'' hs''
    obtain ⟨s, hs, hsame⟩ := h.kept s' hs'
    exact ⟨s, hs, hsame.trans hsame'⟩

theorem record (e : Engine) {event : Event} (h : event.involves i = false) :
    Bystands i e (e.record event) := ⟨.record e h, fun s hs => ⟨s, hs, .refl s⟩⟩

section

variable (h : Bystands i e e')
include h

/-- Whoever is gone stays gone. -/
theorem gone (hn : e.instance? i = none) : e'.instance? i = none := by
  refine Option.eq_none_iff_forall_ne_some.mpr fun s' hs' => ?_
  obtain ⟨s, hs, _⟩ := h.kept s' hs'
  exact nomatch hn.symm.trans hs

theorem flowBegun : flowBegun e'.journal i = flowBegun e.journal i := by
  obtain ⟨news, hj, hn⟩ := h.news
  rw [hj]
  exact flowBegun_append (fun event hmem => Event.isBirth_eq_false (hn event hmem)) _

/-- Of what involves the instance nothing is new. -/
theorem mem_since {event : Event} (hi : event.involves i = true) :
    event ∈ since i e'.journal ↔ event ∈ since i e.journal := by
  obtain ⟨news, hj, hn⟩ := h.news
  rw [hj, since_append fun event hmem => Event.isBirth_eq_false (hn event hmem), List.mem_append,
    or_iff_right fun hmem => Bool.false_ne_true ((hn event hmem).symm.trans hi)]

/-- **No count changes.** -/
theorem countP_since {p : Event → Bool} (hp : ∀ event, p event = true → event.involves i = true) :
    (since i e'.journal).countP p = (since i e.journal).countP p := by
  obtain ⟨news, hj, hn⟩ := h.news
  rw [hj, since_append fun event hmem => Event.isBirth_eq_false (hn event hmem),
    List.countP_append, List.countP_eq_zero.mpr, Nat.zero_add]
  exact fun event hmem htrue =>
    Bool.false_ne_true ((hn event hmem).symm.trans (hp event htrue))

theorem returns_eq : returns i e'.journal = returns i e.journal :=
  h.countP_since fun _ => Event.involves_of_isReturn

theorem stepsOf_eq : stepsOf i e'.journal = stepsOf i e.journal :=
  h.countP_since fun _ => Event.involves_of_isStepOf

theorem endings_eq (d : Definition) : endings d i e'.journal = endings d i e.journal := by
  unfold endings
  rw [h.flowBegun]
  exact h.countP_since fun _ he => Event.involves_of_isStepOf (Event.isStepOf_of_isEnding he)

end

end Bystands

/-- **An instance gives back control with each End component**, to the component that waits for it.
    One that is let go by its call gives back control once, before its first step. -/
structure Homing (d : Definition) (i : InstanceId) (e : Engine) : Prop where
  flow : ∀ s, e.instance? i = some s → flowBegun e.journal i = some s.flow
  /-- Who waits for an instance that is there is known. -/
  called : ∀ s, e.instance? i = some s → ∀ p c,
    .awaited (some i) p c ∈ since i e.journal ↔ s.isAction = true ∧ s.parent = some (p, c)
  home : ∀ p c, .returned i p c ∈ since i e.journal → .awaited (some i) p c ∈ since i e.journal
  count : ∀ p c, .awaited (some i) p c ∈ since i e.journal →
    returns i e.journal = endings d i e.journal
    ∨ e.instance? i = none ∧ returns i e.journal = 1 ∧ stepsOf i e.journal = 0

namespace Homing

variable {d : Definition} {i : InstanceId} {e e' : Engine}

/-- Where no milestone is reached it stays so. -/
theorem bystands (h : Homing d i e) (hb : Bystands i e e') : Homing d i e' := by
  have hawaited (p : InstanceId) (c : Nat) := hb.mem_since (Event.involves_awaited i p c)
  refine ⟨fun s' hs' => ?_, fun s' hs' p c => ?_, fun p c hr => ?_, fun p c ha => ?_⟩
  · obtain ⟨s, hs, hsame⟩ := hb.kept s' hs'
    rw [hb.flowBegun, h.flow s hs, hsame.flow_eq]
  · obtain ⟨s, hs, hsame⟩ := hb.kept s' hs'
    rw [hawaited, h.called s hs, hsame.isAction_eq, hsame.parent_eq]
  · exact (hawaited p c).mpr (h.home p c ((hb.mem_since (Event.involves_returned i p c)).mp hr))
  · rw [hb.returns_eq, hb.endings_eq, hb.stepsOf_eq]
    exact (h.count p c ((hawaited p c).mp ha)).imp_right fun ⟨hgone, hcounts⟩ =>
      ⟨hb.gone hgone, hcounts⟩

/-- Nothing is told of an instance before it begins. -/
theorem of_empty (hn : ∀ s, e.instance? i ≠ some s) (hj : e.journal = []) : Homing d i e := by
  refine ⟨fun s hs => absurd hs (hn s), fun s hs => absurd hs (hn s), fun p c hr => ?_,
    fun p c ha => ?_⟩
  · rw [hj] at hr
    cases hr
  · rw [hj] at ha
    cases ha

/-- **What is told of an instance that is there** keeps it so, if control goes back where an End
    component has its step. -/
theorem tells (h : Homing d i e) {s : Instance} (hs : e.instance? i = some s) (news : List Event)
    (hf : e'.forest = e.forest) (hj : e'.journal = news ++ e.journal)
    (hb : ∀ event ∈ news, event.isBirth i = false)
    (hw : ∀ p c, .awaited (some i) p c ∉ news)
    (hr : ∀ p c, .returned i p c ∈ news → s.isAction = true ∧ s.parent = some (p, c))
    (hc : ∀ p, s.isAction = true → s.parent = some p →
      news.countP (Event.isReturn i) = news.countP (Event.isEnding d (some s.flow) i)) :
    Homing d i e' := by
  have hlive (j : InstanceId) : e'.instance? j = e.instance? j := by
    unfold instance?
    rw [hf]
  have hawaited (p : InstanceId) (c : Nat) :
      .awaited (some i) p c ∈ since i e'.journal ↔ .awaited (some i) p c ∈ since i e.journal := by
    rw [hj, since_append hb, List.mem_append, or_iff_right (hw p c)]
  refine ⟨fun s' hs' => ?_, fun s' hs' p c => ?_, fun p c hmem => ?_, fun p c ha => Or.inl ?_⟩
  · rw [hj, flowBegun_append hb]
    exact h.flow s' (hlive i ▸ hs')
  · rw [hawaited]
    exact h.called s' (hlive i ▸ hs') p c
  · rw [hawaited]
    rw [hj, since_append hb] at hmem
    rcases List.mem_append.mp hmem with hnew | hold
    · exact (h.called s hs p c).mpr (hr p c hnew)
    · exact h.home p c hold
  · rw [hawaited] at ha
    obtain ⟨haction, hparent⟩ := (h.called s hs p c).mp ha
    have hcount := (h.count p c ha).resolve_right fun hgone => nomatch hs.symm.trans hgone.1
    rw [hj, returns_append hb, endings_append hb, h.flow s hs, hcount, hc _ haction hparent]

section

variable {t : Task} {s : Instance} {c : Component} (h : Homing d i e)
  (hs : e.instance? t.instanceId = some s) (hc : d.component? s.flow t.component = some c)
include h hs hc

/-- **A step begins** that is none of an End component, or in an instance that nobody called. -/
theorem beginStep (hk : c.kind ≠ .finish ∨ ∀ p, ¬ (s.isAction = true ∧ s.parent = some p)) :
    Homing d i (e.beginStep t) := by
  have hone {event : Event} (hmem : event ∈ [Event.stepped t]) : event = .stepped t :=
    List.mem_singleton.mp hmem
  by_cases hi : t.instanceId = i
  · subst hi
    refine h.tells hs [.stepped t] rfl rfl (fun event hmem => hone hmem ▸ rfl)
      (fun p component hmem => nomatch hone hmem) (fun p component hmem => nomatch hone hmem)
      fun p ha hp => ?_
    have hother : (c.kind == .finish) = false :=
      beq_false_of_ne (hk.resolve_right fun hn => hn p ⟨ha, hp⟩)
    rw [List.countP_singleton, List.countP_singleton, Event.isEnding_stepped hc, hother]
    rfl
  · refine h.bystands ⟨⟨[.stepped t], rfl, fun event hmem => ?_⟩, fun s hs => ⟨s, hs, .refl s⟩⟩
    exact hone hmem ▸ beq_false_of_ne hi

/-- **The step of an End component begins** in a called instance, and control goes back. -/
theorem finish (hk : c.kind = .finish) {p : InstanceId} {component : Nat}
    (ha : s.isAction = true) (hp : s.parent = some (p, component)) :
    Homing d i ((e.beginStep t).record (.returned t.instanceId p component)) := by
  have htwo {event : Event} (hmem : event ∈ [.returned t.instanceId p component, .stepped t]) :
      event = .returned t.instanceId p component ∨ event = .stepped t := List.mem_pair.mp hmem
  by_cases hi : t.instanceId = i
  · subst hi
    refine h.tells hs [.returned t.instanceId p component, .stepped t] rfl rfl
      (fun event hmem => ?_) (fun p' component' hmem => ?_) (fun p' component' hmem => ?_)
      fun _ _ _ => ?_
    · rcases htwo hmem with rfl | rfl <;> rfl
    · rcases htwo hmem with heq | heq <;> cases heq
    · rcases htwo hmem with heq | heq
      · obtain ⟨_, rfl, rfl⟩ := Event.returned.inj heq
        exact ⟨ha, hp⟩
      · cases heq
    · have hreturn : (Event.returned t.instanceId p component).isReturn t.instanceId = true :=
        beq_self_eq_true _
      have hending : (Event.stepped t).isEnding d (some s.flow) t.instanceId = true := by
        rw [Event.isEnding_stepped hc, hk]
        rfl
      have hreturns : [Event.returned t.instanceId p component, .stepped t].countP
          (Event.isReturn t.instanceId) = 1 := by
        rw [List.countP_cons_of_pos hreturn]
        rfl
      rw [hreturns, List.countP_cons_of_neg Bool.false_ne_true, List.countP_singleton,
        if_pos hending]
  · refine h.bystands ⟨⟨[.returned t.instanceId p component, .stepped t], rfl,
      fun event hmem => ?_⟩, fun s hs => ⟨s, hs, .refl s⟩⟩
    rcases htwo hmem with rfl | rfl <;> exact beq_false_of_ne hi

end

end Homing

/-! ## 4. How an instance begins -/

/-- **An instance has only just begun**, for this caller if any. -/
structure Newborn (i : InstanceId) (flow : Nat) (parent : Option (InstanceId × Nat))
    (isAction : Bool) (e : Engine) : Prop where
  same : ∀ s, e.instance? i = some s → s.flow = flow ∧ s.parent = parent ∧ s.isAction = isAction
  flow : flowBegun e.journal i = some flow
  untold : ∀ event ∈ since i e.journal, event.involves i = false

namespace Newborn

variable {d : Definition} {i : InstanceId} {flow : Nat} {parent : Option (InstanceId × Nat)}
  {isAction : Bool} {e e' : Engine}

theorem bystands (h : Newborn i flow parent isAction e) (hb : Bystands i e e') :
    Newborn i flow parent isAction e' := by
  refine ⟨fun s' hs' => ?_, hb.flowBegun.trans h.flow, fun event hmem => ?_⟩
  · obtain ⟨s, hs, hsame⟩ := hb.kept s' hs'
    rw [hsame.flow_eq, hsame.parent_eq, hsame.isAction_eq]
    exact h.same s hs
  · refine Bool.eq_false_iff.mpr fun hi => ?_
    exact Bool.false_ne_true ((h.untold event ((hb.mem_since hi).mp hmem)).symm.trans hi)

section

variable (h : Newborn i flow parent isAction e)
include h

/-- Nothing is told of it yet. -/
theorem not_mem {event : Event} (hi : event.involves i = true) : event ∉ since i e.journal :=
  fun hmem => Bool.false_ne_true ((h.untold event hmem).symm.trans hi)

theorem countP_since {p : Event → Bool} (hp : ∀ event, p event = true → event.involves i = true) :
    (since i e.journal).countP p = 0 :=
  List.countP_eq_zero.mpr fun event hmem htrue => h.not_mem (hp event htrue) hmem

end

/-- An instance that nobody called is waited for by nobody. -/
theorem uncalled (h : Newborn i flow parent false e) : Homing d i e := by
  have hnot (p : InstanceId) (c : Nat) := h.not_mem (Event.involves_awaited i p c)
  refine ⟨fun s hs => ?_, fun s hs p c => ?_,
    fun p c hr => absurd hr (h.not_mem (Event.involves_returned i p c)),
    fun p c ha => absurd ha (hnot p c)⟩
  · rw [(h.same s hs).1]
    exact h.flow
  · rw [(h.same s hs).2.2]
    exact iff_of_false (hnot p c) fun ⟨ha, _⟩ => Bool.false_ne_true ha

section

variable {p : InstanceId} {c : Nat} (h : Newborn i flow (some (p, c)) true e)
include h

omit h in
theorem since_awaited : since i (e.record (.awaited (some i) p c)).journal
    = .awaited (some i) p c :: since i e.journal := since_cons rfl _

/-- Nothing is counted yet where its caller begins to wait. -/
theorem counts : returns i (e.record (.awaited (some i) p c)).journal = 0
    ∧ stepsOf i (e.record (.awaited (some i) p c)).journal = 0 := by
  unfold returns stepsOf
  rw [since_awaited, List.countP_cons_of_neg Bool.false_ne_true,
    List.countP_cons_of_neg Bool.false_ne_true]
  exact ⟨h.countP_since fun _ => Event.involves_of_isReturn,
    h.countP_since fun _ => Event.involves_of_isStepOf⟩

/-- **A called instance** is waited for by its caller. -/
theorem called : Homing d i (e.record (.awaited (some i) p c)) := by
  have hendings : endings d i (e.record (.awaited (some i) p c)).journal = 0 :=
    Nat.le_zero.mp (h.counts.2 ▸ endings_le_stepsOf d i _)
  refine ⟨fun s hs => ?_, fun s hs p' c' => ?_, fun p' c' hr => ?_,
    fun p' c' _ => Or.inl (h.counts.1.trans hendings.symm)⟩
  · rw [(h.same s hs).1]
    exact h.flow
  · obtain ⟨_, hparent, haction⟩ := h.same s hs
    rw [since_awaited, List.mem_cons, or_iff_left (h.not_mem (Event.involves_awaited i p' c')),
      hparent, haction]
    simp [eq_comm]
  · rw [since_awaited, List.mem_cons, or_iff_right nofun] at hr
    exact absurd hr (h.not_mem (Event.involves_returned i p' c'))

/-- **A called instance that is let go at once** gives back control this once. -/
theorem letGo (hb : Bystands i (e.record (.awaited (some i) p c)) e')
    (hn : e'.instance? i = none) : Homing d i (e'.record (.returned i p c)) := by
  have hhome : Homing d i e' := h.called.bystands hb
  have hsince : since i (e'.record (.returned i p c)).journal
      = .returned i p c :: since i e'.journal := since_cons rfl _
  have hwaits (p' : InstanceId) (c' : Nat) :
      .awaited (some i) p' c' ∈ since i (e'.record (.returned i p c)).journal
        ↔ .awaited (some i) p' c' ∈ since i e'.journal := by
    rw [hsince, List.mem_cons, or_iff_right nofun]
  refine ⟨fun s hs => (nomatch hn.symm.trans hs), fun s hs => (nomatch hn.symm.trans hs),
    fun p' c' hr => ?_, fun p' c' _ => Or.inr ⟨hn, ?_, ?_⟩⟩
  · rw [hwaits]
    rw [hsince] at hr
    rcases List.mem_cons.mp hr with heq | hold
    · obtain ⟨_, rfl, rfl⟩ := Event.returned.inj heq
      rw [hb.mem_since (Event.involves_awaited i p' c'), since_awaited]
      exact List.mem_cons_self
    · exact hhome.home p' c' hold
  · have hself : (Event.returned i p c).isReturn i = true := beq_self_eq_true i
    show (since i (e'.record (.returned i p c)).journal).countP (Event.isReturn i) = 1
    rw [hsince, List.countP_cons_of_pos hself, Nat.add_eq_right]
    exact hb.returns_eq.trans h.counts.1
  · show (since i (e'.record (.returned i p c)).journal).countP (Event.isStepOf i) = 0
    rw [hsince, List.countP_cons_of_neg Bool.false_ne_true]
    exact hb.stepsOf_eq.trans h.counts.2

end

end Newborn

end Engine

end InstrumentFlow
