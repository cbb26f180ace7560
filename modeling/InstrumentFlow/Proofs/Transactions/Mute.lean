import InstrumentFlow.Proofs.Engine.Tolerance
import InstrumentFlow.Proofs.Lasting.Unmoved
import InstrumentFlow.Proofs.Transactions.Exchange

/-!
# Activities without a word to the instrument

Most activities send no request, collect no answer and leave progress as it is.

* `Mute` -- nothing was said to the instrument between two states, and no progress changed but that
  of some components;
* `Mute.tolerant` -- it is what every activity keeps that does not concern itself with requests;
* `Mutes` -- an activity says nothing to the instrument, from any state.
-/

namespace InstrumentFlow

theorem Event.disturbsBut_of_isPassing {own : InstanceId → Nat → Bool} {event : Event}
    (h : event.isPassing = true) : event.disturbsBut own = false := by
  cases event with
  | progressChanged _ _ | dispatched _ _ _ | collected _ _ _ _ | ended _ _ _ | stepped _
  | destroyed _ => cases h
  | _ => rfl

namespace Engine

/-- No component. -/
def noOne : InstanceId → Nat → Bool := fun _ _ => false

/-- **Nothing was said to the instrument**, and progress stayed as it is, but for that of some
    components. -/
structure Mute (own : InstanceId → Nat → Bool) (e e' : Engine) : Prop where
  ledger : e'.ledger = e.ledger
  progress : ∀ i c, own i c = false → e'.progress? i c = e.progress? i c
  news : Adds (Event.disturbsBut own) e e'

namespace Mute

variable {own : InstanceId → Nat → Bool} {e e' e'' : Engine}

theorem refl (e : Engine) : Mute own e e := ⟨rfl, fun _ _ _ => rfl, .refl e⟩

theorem trans (h : Mute own e e') (h' : Mute own e' e'') : Mute own e e'' where
  ledger := h'.ledger.trans h.ledger
  progress i c ho := (h'.progress i c ho).trans (h.progress i c ho)
  news := h.news.trans h'.news

/-- A change of what is neither told nor kept in instances. -/
theorem beside (hf : e'.forest = e.forest) (hl : e'.ledger = e.ledger)
    (hj : e'.journal = e.journal) : Mute own e e' := by
  refine ⟨hl, fun i c _ => ?_, .silent hj⟩
  unfold progress? instance?
  rw [hf]

theorem record (e : Engine) {event : Event} (h : event.disturbsBut own = false) :
    Mute own e (e.record event) := ⟨rfl, fun _ _ _ => rfl, .record e h⟩

theorem modifyInstance (e : Engine) (i : InstanceId) {change : Instance → Instance}
    (hc : ∀ s, (change s).progress = s.progress) : Mute own e (e.modifyInstance i change) :=
  ⟨rfl, fun j c _ => progress?_modifyInstance e i change hc j c, .silent rfl⟩

theorem setProgress (e : Engine) {i : InstanceId} {component : Nat} (ho : own i component = true)
    (p : Option Progress) : Mute own e (e.setProgress i component p) := by
  refine ⟨rfl, fun j c hj => ?_, .silent rfl⟩
  rw [progress?_setProgress, if_neg]
  intro hsame
  rw [hsame.1, hsame.2, ho] at hj
  cases hj

/-- **Activities that change the progress of no other components say nothing to the instrument.** -/
theorem tolerant : Tolerant own (Mute own) where
  refl := refl
  trans := trans
  beside := beside
  record e event h := record e (Event.disturbsBut_of_isPassing h)
  modifyInstance e i _ _ hp := modifyInstance e i hp
  setProgress := setProgress
  noteProgress e i component ho := by
    refine record e ?_
    show (!own i component) = false
    rw [ho]
    rfl

theorem startAsync (e : Engine) (child : Option InstanceId) (i : InstanceId) (component : Nat) :
    Mute own e (e.startAsync child i component) :=
  (record e rfl).trans (tolerant.markAsync _ i component true)

end Mute

/-- **An activity says nothing to the instrument**, from whatever state. -/
def Mutes {α : Type} (own : InstanceId → Nat → Bool) (a : Act α) : Prop :=
  ∀ e, Upholds (Mute own e) (fun _ _ => True) a e

end Engine

end InstrumentFlow
