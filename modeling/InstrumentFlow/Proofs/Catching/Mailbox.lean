import InstrumentFlow.Proofs.Lasting.Unmoved

/-!
# The mailbox of a catch component

A catch component keeps one error at a time. What became of the errors that came to it can be read off
the journal.

* `Mailbox`, `Engine.mailbox` -- the errors that came to a component since its instance began;
* `Mailbox.Accounted` -- every one of them waits, was opened or was replaced;
* `Adds.mailbox`, `Adds.mailbox_eq` -- who finds the mailbox as it was;
* `upholds_propagate_sent` -- what is recorded when a value is sent.
-/

namespace InstrumentFlow

/-! ## 1. Mailboxes -/

/-- **What the journal tells of the errors that came to a component** since its instance began. -/
structure Mailbox where
  /-- All errors, in the order in which they came. -/
  received : List String := []
  /-- The error that came since the last step began, the last one if there were more. -/
  waiting : Option String := none
  /-- The errors with which a step began. -/
  opened : List String := []
  /-- The errors in whose place another one came before a step began. -/
  replaced : List String := []
  /-- What the component sent out of output 1 during its steps. -/
  passedOn : List Value := []
  /-- A step is running. -/
  atWork : Bool := false

namespace Mailbox

/-- An error comes, and takes the place of the one that waits. -/
def receive (b : Mailbox) (message : String) : Mailbox :=
  { b with
    received := b.received ++ [message]
    replaced := b.replaced ++ b.waiting.toList
    waiting := some message }

/-- A step begins with the error that waits, if there is one. -/
def openNext (b : Mailbox) : Mailbox :=
  { b with opened := b.opened ++ b.waiting.toList, waiting := none, atWork := true }

def close (b : Mailbox) : Mailbox := { b with atWork := false }

/-- A value is sent out of output 1. It counts during a step only: the host can send values, too. -/
def send (b : Mailbox) (v : Value) : Mailbox :=
  if b.atWork then { b with passedOn := b.passedOn ++ [v] } else b

/-- **What an event means** for the mailbox of a component. -/
def note (i : InstanceId) (c : Nat) (event : Event) (b : Mailbox) : Mailbox :=
  match event with
  | .created j _ => if j = i then {} else b
  | .routed _ _ j k message => if j = i ∧ k = c then b.receive message else b
  | .stepped t => if t.instanceId = i ∧ t.component = c then b.openNext else b
  | .ended j k _ => if j = i ∧ k = c then b.close else b
  | .sent j k output v => if j = i ∧ k = c ∧ output = 1 then b.send v else b
  | _ => b

/-! ## 2. Every error is accounted for -/

/-- **Every error that came waits, was opened or was replaced.** The errors that were opened or wait
    are in the order in which they came. -/
structure Accounted (b : Mailbox) : Prop where
  ordered : (b.opened ++ b.waiting.toList).Sublist b.received
  complete : b.received.Perm (b.opened ++ b.waiting.toList ++ b.replaced)

namespace Accounted

variable {b : Mailbox}

theorem receive (h : b.Accounted) (message : String) : (b.receive message).Accounted where
  ordered := ((List.sublist_append_left _ _).trans h.ordered).append (.refl _)
  complete := by
    have hbefore := h.complete
    rw [List.perm_iff_count] at hbefore ⊢
    intro m
    have hm := hbefore m
    simp only [Mailbox.receive, List.count_append, Option.toList_some] at hm ⊢
    omega

theorem openNext (h : b.Accounted) : b.openNext.Accounted where
  ordered := by simpa [Mailbox.openNext] using h.ordered
  complete := by simpa [Mailbox.openNext] using h.complete

/-- What a step does leaves the errors as they are. -/
theorem of_same {b' : Mailbox} (h : b.Accounted) (hr : b'.received = b.received)
    (hw : b'.waiting = b.waiting) (ho : b'.opened = b.opened) (hd : b'.replaced = b.replaced) :
    b'.Accounted := by
  refine ⟨?_, ?_⟩
  · rw [hr, hw, ho]
    exact h.ordered
  · rw [hr, hw, ho, hd]
    exact h.complete

theorem note (h : b.Accounted) (i : InstanceId) (c : Nat) (event : Event) :
    (note i c event b).Accounted := by
  unfold Mailbox.note
  split
  · split
    · exact ⟨.refl _, .refl _⟩
    · exact h
  · split
    · exact h.receive _
    · exact h
  · split
    · exact h.openNext
    · exact h
  · split
    · exact h.of_same rfl rfl rfl rfl
    · exact h
  · split
    · unfold send
      split
      · exact h.of_same rfl rfl rfl rfl
      · exact h
    · exact h
  · exact h

/-- **No error is lost** exactly where none was replaced. -/
theorem replaced_eq_nil_iff (h : b.Accounted) :
    b.replaced = [] ↔ b.received = b.opened ++ b.waiting.toList := by
  have hlength := h.complete.length_eq
  rw [List.length_append] at hlength
  constructor
  · intro hnil
    rw [hnil, List.length_nil, Nat.add_zero] at hlength
    exact (h.ordered.eq_of_length hlength.symm).symm
  · intro hall
    rw [← hall] at hlength
    exact List.length_eq_zero_iff.mp (by omega)

end Accounted

theorem foldr_note_eq {i : InstanceId} {c : Nat} {b : Mailbox} {news : List Event}
    (h : ∀ event ∈ news, note i c event b = b) : news.foldr (note i c) b = b := by
  induction news with
  | nil => rfl
  | cons event news ih =>
    rw [List.foldr_cons, ih fun event' he => h event' (List.mem_cons_of_mem event he)]
    exact h event List.mem_cons_self

end Mailbox

namespace Event

/-- Whether an event changes the mailbox of a component: it is the business of the component, or a
    value is sent out of its output 1. -/
def posts (i : InstanceId) (c : Nat) : Event → Bool
  | sent j k output _ => j = i ∧ k = c ∧ output = 1
  | event => event.concerns i c

theorem isBusiness_of_posts {i : InstanceId} {c : Nat} {event : Event}
    (h : event.posts i c = true) : event.isBusiness = true := by
  cases event with
  | created _ _ | stepped _ | ended _ _ _ | routed _ _ _ _ _ | sent _ _ _ _ => rfl
  | _ => cases h

end Event

theorem Mailbox.note_of_not_posts {i : InstanceId} {c : Nat} {event : Event}
    (h : event.posts i c = false) (b : Mailbox) : note i c event b = b := by
  cases event with
  | created _ _ | stepped _ | ended _ _ _ | routed _ _ _ _ _ | sent _ _ _ _ =>
    exact if_neg (of_decide_eq_false h)
  | _ => rfl

/-- Between the steps of a component nothing counts that is sent. -/
theorem Mailbox.note_of_not_concerns {i : InstanceId} {c : Nat} {event : Event}
    (h : event.concerns i c = false) {b : Mailbox} (hb : b.atWork = false) :
    note i c event b = b := by
  cases event with
  | sent j k output v =>
    have hsend : b.send v = b := by
      unfold send
      rw [hb]
      rfl
    show (if j = i ∧ k = c ∧ output = 1 then b.send v else b) = b
    rw [hsend, ite_self]
  | created _ _ | stepped _ | ended _ _ _ | routed _ _ _ _ _ => exact if_neg (of_decide_eq_false h)
  | _ => rfl

namespace Engine

/-- The mailbox of a component. -/
def mailbox (e : Engine) (i : InstanceId) (c : Nat) : Mailbox :=
  e.journal.foldr (Mailbox.note i c) {}

theorem accounted_mailbox (e : Engine) (i : InstanceId) (c : Nat) :
    (e.mailbox i c).Accounted := by
  unfold mailbox
  induction e.journal with
  | nil => exact ⟨.refl _, .refl _⟩
  | cons event journal ih => exact ih.note i c event

section

variable {i : InstanceId} {c : Nat} {e e' : Engine}

theorem Adds.mailbox_eq (h : Adds (Event.posts i c) e e') : e'.mailbox i c = e.mailbox i c := by
  obtain ⟨news, hj, hn⟩ := h
  unfold mailbox
  rw [hj, List.foldr_append]
  exact Mailbox.foldr_note_eq fun event he => Mailbox.note_of_not_posts (hn event he) _

/-- **Who is left alone** finds the mailbox as it was. -/
theorem Adds.mailbox (h : Adds (Event.concerns i c) e e') (hb : (e.mailbox i c).atWork = false) :
    e'.mailbox i c = e.mailbox i c := by
  obtain ⟨news, hj, hn⟩ := h
  unfold Engine.mailbox
  rw [hj, List.foldr_append]
  exact Mailbox.foldr_note_eq fun event he => Mailbox.note_of_not_concerns (hn event he) hb

theorem Idles.adds_posts (h : Idles e e') : Adds (Event.posts i c) e e' :=
  h.mono fun _ => Event.isBusiness_of_posts

end

/-! ## 3. Values that are sent -/

section

variable {e₀ e : Engine}

theorem idles_resetSequenceInputs (e : Engine) (i : InstanceId) (component : Nat) :
    Idles e (e.resetSequenceInputs i component) := by
  unfold resetSequenceInputs
  generalize e.sequenceInputs i component = slots
  induction slots generalizing e with
  | nil => exact .refl e
  | cons slot slots ih => exact (Idles.clearSlot e i slot).trans (ih _)

theorem upholds_resolved_idles (h : Idles e₀ e) (activity : Activity) (v : Value) :
    Upholds (Idles e₀) (fun _ _ => True) (resolved activity v) e := by
  unfold resolved
  refine upholds_get ?_
  split
  · exact upholds_pure h trivial
  · exact upholds_throw h

theorem upholds_deliver_idles (h : Idles e₀ e) (i : InstanceId) (v : Value) (c : Connection) :
    Upholds (Idles e₀) (fun _ _ => True) (deliver i v c) e := by
  unfold deliver
  refine upholds_get ?_
  dsimp only
  split
  · exact upholds_throw h
  next s _ =>
  split
  · exact upholds_pure h trivial
  next held _ =>
  have harrival := Idles.arrival e i c.targetInput.toNat c.targetComponent.toNat held v
  have hping := h.trans (harrival.trans (Idles.ping _ i c.targetComponent.toNat))
  refine upholds_set ?_ trivial
  split
  · exact hping.trans (Idles.clearSlot _ _ _)
  · exact hping

theorem upholds_deliverAll_idles (h : Idles e₀ e) (i : InstanceId) (v : Value)
    (cs : List Connection) : Upholds (Idles e₀) (fun _ _ => True) (deliverAll i v cs) e := by
  induction cs generalizing e with
  | nil => exact upholds_pure h trivial
  | cons c cs ih => exact upholds_bind (upholds_deliver_idles h i v c) fun _ _ h _ => ih h

/-- A value was sent out of an output, and nothing else happened that is anybody's business. -/
def Sends (i : InstanceId) (component output : Nat) (v : Value) (e e' : Engine) : Prop :=
  ∃ e₁, Idles e e₁ ∧ Idles (e₁.record (.sent i component output v)) e'

theorem Sends.mailbox {i : InstanceId} {c : Nat} {v : Value} (h : Sends i c 1 v e₀ e) :
    e.mailbox i c = (e₀.mailbox i c).send v := by
  obtain ⟨e₁, hbefore, hafter⟩ := h
  have hsent : (e₁.record (.sent i c 1 v)).mailbox i c = (e₁.mailbox i c).send v :=
    if_pos ⟨rfl, rfl, rfl⟩
  rw [hafter.adds_posts.mailbox_eq, hsent, hbefore.adds_posts.mailbox_eq]

/-- What is sent out of another output is no error that is passed on. -/
theorem Sends.mailbox_of_ne {i : InstanceId} {c output : Nat} {v : Value}
    (h : Sends i c output v e₀ e) (ho : output ≠ 1) : e.mailbox i c = e₀.mailbox i c := by
  obtain ⟨e₁, hbefore, hafter⟩ := h
  have hsent : Adds (Event.posts i c) e₁ (e₁.record (.sent i c output v)) :=
    .record e₁ (decide_eq_false fun h => ho h.2.2)
  rw [hafter.adds_posts.mailbox_eq, hsent.mailbox_eq, hbefore.adds_posts.mailbox_eq]

/-- **What is recorded when a value is sent**: that it was sent, unless the run is to stop. -/
theorem upholds_propagate_sent (i : InstanceId) (component output : Nat) (v : Value) :
    Upholds (fun e' => (e.stopRequested || e.stopped) = true ∧ e' = e ∨ Sends i component output v e e')
      (fun _ _ => True) (propagate i component output v) e := by
  unfold propagate
  refine upholds_get ?_
  split
  · next hstop => exact upholds_pure (Or.inl ⟨hstop, rfl⟩) trivial
  have hreset : Idles e (if e.executing = some (i, component) then
      e.resetSequenceInputs i component else e) := by
    split
    · exact idles_resetSequenceInputs e i component
    · exact .refl e
  generalize (if e.executing = some (i, component) then
    e.resetSequenceInputs i component else e) = e₁ at hreset ⊢
  have hsends {e' : Engine} (h : Idles (e₁.record (.sent i component output v)) e') :
      Sends i component output v e e' := ⟨e₁, hreset, h⟩
  refine upholds_set_bind ?_
  split
  · exact upholds_throw (Or.inr (hsends (.refl _)))
  split
  · exact upholds_throw (Or.inr (hsends (.refl _)))
  split
  · exact upholds_pure (Or.inr (hsends (.refl _))) trivial
  next out _ =>
  have hrest : Upholds (Idles (e₁.record (.sent i component output v))) (fun _ _ => True)
      (do let v ← resolved .readPropagated v; deliverAll i v out.connections)
      (e₁.record (.sent i component output v)) :=
    upholds_bind (upholds_resolved_idles (.refl _) _ v) fun w _ h _ =>
      upholds_deliverAll_idles h i w _
  exact hrest.mono (fun _ h => Or.inr (hsends h)) fun _ _ _ hq => hq

end

end Engine

end InstrumentFlow
