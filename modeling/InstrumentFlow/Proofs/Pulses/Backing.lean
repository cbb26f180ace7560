import InstrumentFlow.Proofs.Pulses.Account
import InstrumentFlow.Proofs.Engine.Touch

/-!
# Pulses that are on the account

* `Account.Covered` -- a pulse is there that is on the account;
* `Backs` -- whatever stands in a pulse slot is on the account, and no firing was a stray one;
* `Backs.arrive`, `push`, `fire`, `settle` -- what is booked keeps that.

Which slots hold something is a parameter of `Backs`: nothing is said here about instances.
-/

namespace InstrumentFlow

/-! ## 1. What is booked -/

namespace Account

/-- A pulse is there that is on the account. -/
def Covered (a : Account) : Prop := a.stays = true ∨ a.pending = true

theorem stays_commit {a : Account} (h : a.Covered) : a.commit.stays = true := by
  rcases a.commit_cases with ⟨hp, he⟩ | ⟨_, he⟩
  · rw [he]
    exact h.resolve_right fun hp' => Bool.false_ne_true (hp.symm.trans hp')
  · rw [he]

theorem stray_commit (a : Account) : a.commit.stray = a.stray := by
  rcases a.commit_cases with ⟨_, he⟩ | ⟨_, he⟩
  · rw [he]
  · rw [he]

theorem stays_fire (a : Account) : a.fire.stays = a.stays := by
  unfold fire
  split
  · rfl
  split
  · rfl
  split <;> rfl

/-- A firing is no stray one if a pulse is there. -/
theorem stray_fire {a : Account} (h : a.Covered) : a.fire.stray = a.stray := by
  unfold fire
  split
  · rfl
  next hp =>
  split
  · rfl
  rw [if_pos (h.resolve_right hp)]

/-- An event that is not booked. -/
theorem enter_of_quiet {i : InstanceId} {event : Event} (hb : event.isBirth i = false)
    (ht : event.isTraffic = false) (c : Nat) (slots : List Nat) (a : Account) :
    a.enter i c slots event = a.commit := by
  unfold enter
  rw [hb]
  cases event <;> first | rfl | cases ht

/-- What the account says after a value came to a slot: a pulse is pending just if it is one, and
    what stood in the slots before is booked as staying. -/
theorem enter_delivered_cases (i j : InstanceId) (c slot target : Nat) (slots : List Nat)
    (v : Value) (a : Account) :
    (a.enter i c slots (.delivered j slot target v)).stray = a.stray
    ∧ ((a.enter i c slots (.delivered j slot target v)).pending = true
        ↔ j = i ∧ slot ∈ slots ∧ v.isUndefined = false)
    ∧ (a.Covered → (a.enter i c slots (.delivered j slot target v)).stays = true) := by
  rw [Account.enter_delivered]
  split
  · next hpulse =>
    have hp : j = i ∧ slot ∈ slots ∧ v.isUndefined = false := by
      simpa [Event.isPulse, and_assoc] using hpulse
    exact ⟨a.stray_commit, ⟨fun _ => hp, fun _ => rfl⟩, Account.stays_commit⟩
  · next hpulse =>
    have hp : ¬ (j = i ∧ slot ∈ slots ∧ v.isUndefined = false) := by
      simpa [Event.isPulse, and_assoc] using hpulse
    refine ⟨a.stray_commit, ⟨fun h => ?_, fun h => absurd h hp⟩, Account.stays_commit⟩
    rw [a.pending_commit] at h
    cases h

end Account

/-! ## 2. Slots that hold something -/

/-- **The account covers the slots**: no firing was a stray one, and whatever stands in a pulse slot
    is on the account. The predicate tells which slots hold something. -/
structure Backs (slots : List Nat) (a : Account) (Holds : Nat → Prop) : Prop where
  stray_eq : a.stray = 0
  covered : ∀ slot ∈ slots, Holds slot → a.Covered

namespace Backs

variable {slots : List Nat} {a : Account} {P P₁ P₂ : Nat → Prop} (h : Backs slots a P)
include h

theorem commit : Backs slots a.commit P where
  stray_eq := a.stray_commit.trans h.stray_eq
  covered slot hslot hd := Or.inl (Account.stays_commit (h.covered slot hslot hd))

/-- Fewer slots hold something. -/
theorem anti (hd : ∀ slot ∈ slots, P₁ slot → P slot) : Backs slots a P₁ :=
  ⟨h.stray_eq, fun slot hslot hp => h.covered slot hslot (hd slot hslot hp)⟩

/-- A value came to a slot. -/
theorem arrive {i j : InstanceId} {slot : Nat} {v : Value} (c target : Nat)
    (hd : ∀ n, P₁ n → (i = j ∧ n = slot ∧ v.isUndefined = false) ∨ P n) :
    Backs slots (a.enter i c slots (.delivered j slot target v)) P₁ := by
  obtain ⟨hstray, hpending, hstays⟩ := a.enter_delivered_cases i j c slot target slots v
  refine ⟨hstray.trans h.stray_eq, fun n hn hp => ?_⟩
  rcases hd n hp with ⟨hij, rfl, hv⟩ | hp
  · exact Or.inr (hpending.mpr ⟨hij.symm, hn, hv⟩)
  · exact Or.inl (hstays (h.covered n hn hp))

/-- A task that is queued is no stray firing if some slot holds a pulse. -/
theorem push {i : InstanceId} {c : Nat} {t : Task}
    (ht : Event.isFiring i c (.pushed t) = true → a.pending = false ∧ ∃ slot ∈ slots, P slot) :
    Backs slots (a.enter i c slots (.pushed t)) P := by
  rw [Account.enter_pushed]
  split
  · next hfiring =>
    obtain ⟨hpending, slot, hslot, hp⟩ := ht hfiring
    have hcovered := h.covered slot hslot hp
    refine ⟨(Account.stray_fire hcovered).trans h.stray_eq, fun _ _ _ => Or.inl ?_⟩
    rw [a.stays_fire]
    exact hcovered.resolve_right fun hp => Bool.false_ne_true (hpending.symm.trans hp)
  · exact h.commit

/-- When the pulses of a component are used up nothing is left in the slots. -/
theorem settle {i j : InstanceId} {c component : Nat}
    (hgone : j = i ∧ component = c → ∀ slot ∈ slots, ¬ P slot) :
    Backs slots (a.enter i c slots (.settled j component)) P := by
  rw [Account.enter_settled]
  split
  · next hsettled =>
    have hc : j = i ∧ component = c := by simpa [Event.isSettlement] using hsettled
    exact ⟨a.stray_commit.trans h.stray_eq, fun slot hslot hp => absurd hp (hgone hc slot hslot)⟩
  · exact h.commit

/-- **A value came to a slot and got the component queued**: if it is a pulse it is used up at once,
    else some pulse was there before. -/
theorem fire {i : InstanceId} {c slot : Nat} {v : Value}
    (hd : ∀ n, P₁ n → (n = slot ∧ v.isUndefined = false) ∨ (n ≠ slot ∧ P n))
    (hready : ∃ n ∈ slots, P₁ n) (hsub : ∀ n, P₂ n → P₁ n ∧ (slot ∈ slots → n ≠ slot)) :
    Backs slots ((a.enter i c slots (.delivered i slot c v)).enter i c slots
      (.pushed ⟨i, c, false⟩)) P₂ := by
  obtain ⟨hstray, hpending, hstays⟩ := a.enter_delivered_cases i i c slot c slots v
  have hfiring : Event.isFiring i c (.pushed ⟨i, c, false⟩) = true := by simp [Event.isFiring]
  rw [Account.enter_pushed, if_pos hfiring]
  generalize a.enter i c slots (.delivered i slot c v) = b at hstray hpending hstays ⊢
  by_cases hpulse : slot ∈ slots ∧ v.isUndefined = false
  · refine ⟨?_, fun n hn hp => Or.inl ?_⟩
    · rw [Account.stray_fire (Or.inr (hpending.mpr ⟨rfl, hpulse⟩)), hstray, h.stray_eq]
    · obtain ⟨hp₁, hne⟩ := hsub n hp
      rcases hd n hp₁ with ⟨heq, _⟩ | ⟨_, hp⟩
      · exact absurd heq (hne hpulse.1)
      · rw [b.stays_fire]
        exact hstays (h.covered n hn hp)
  · obtain ⟨n, hn, hp₁⟩ := hready
    have hcovered : a.Covered := by
      rcases hd n hp₁ with ⟨rfl, hv⟩ | ⟨_, hp⟩
      · exact absurd ⟨hn, hv⟩ hpulse
      · exact h.covered n hn hp
    refine ⟨?_, fun _ _ _ => Or.inl ?_⟩
    · rw [Account.stray_fire (Or.inl (hstays hcovered)), hstray, h.stray_eq]
    · rw [b.stays_fire]
      exact hstays hcovered

omit h in
/-- An event that is not booked. -/
theorem quiet {i : InstanceId} {c : Nat} {journal : List Event}
    (h : Backs slots (account i c slots journal) P) {event : Event} (hb : event.isBirth i = false)
    (ht : event.isTraffic = false) : Backs slots (account i c slots (event :: journal)) P := by
  show Backs slots (Account.enter i c slots event (account i c slots journal)) P
  rw [Account.enter_of_quiet hb ht]
  exact h.commit

end Backs

end InstrumentFlow
