import InstrumentFlow.Proofs.Lifetime.Events

/-!
# The account of a component

The journal tells of a component which pulses came to it and how often it was queued. The account
books every one of these against the pulses.

* `Event.isPulse`, `isFiring`, `isSettlement` -- the events that are booked;
* `Account`, `Account.enter`, `account` -- the account, and how the journal is booked;
* `firings`, `pulses` -- how often the component was queued, and how many pulses came;
* `fired_account`, `received_account` -- the account adds up.
-/

namespace InstrumentFlow

/-! ## 1. The events that are booked -/

namespace Event

/-- A value that is something came to one of these slots of the instance. -/
def isPulse (i : InstanceId) (slots : List Nat) : Event → Bool
  | delivered j slot _ v => j == i && slots.contains slot && !v.isUndefined
  | _ => false

/-- The component was queued, other than to go on with its work. -/
def isFiring (i : InstanceId) (c : Nat) : Event → Bool
  | pushed t => t.instanceId == i && t.component == c && !t.continuous
  | _ => false

/-- A task of the component was dealt with, and its pulses are used up. -/
def isSettlement (i : InstanceId) (c : Nat) : Event → Bool
  | settled j c' => j == i && c' == c
  | _ => false

end Event

/-! ## 2. The account -/

/-- **The account of a component.** -/
structure Account where
  /-- The last that happened is that a pulse came. -/
  pending : Bool := false
  /-- A pulse stayed since the pulses were last used up. -/
  stays : Bool := false
  /-- Pulses that stayed and have not fired yet. -/
  waiting : Nat := 0
  /-- Pulses that were used up without having fired. -/
  wasted : Nat := 0
  /-- Firings by a pulse when it came. -/
  direct : Nat := 0
  /-- Firings by something else, each for a pulse that waited. -/
  resumed : Nat := 0
  /-- Firings by something else while only pulses stay that have fired. -/
  repeated : Nat := 0
  /-- Firings without any pulse. -/
  stray : Nat := 0
  deriving DecidableEq

namespace Account

/-- A pulse that did not fire when it came stays. -/
def commit (a : Account) : Account :=
  if a.pending then { a with pending := false, stays := true, waiting := a.waiting + 1 } else a

/-- Books a firing. -/
def fire (a : Account) : Account :=
  if a.pending then { a with pending := false, direct := a.direct + 1 }
  else if 0 < a.waiting then { a with waiting := a.waiting - 1, resumed := a.resumed + 1 }
  else if a.stays then { a with repeated := a.repeated + 1 }
  else { a with stray := a.stray + 1 }

/-- Books that the pulses are used up. -/
def settle (a : Account) : Account :=
  { a.commit with waiting := 0, stays := false, wasted := a.commit.wasted + a.commit.waiting }

/-- Pulses that have not fired. -/
def unfired (a : Account) : Nat := a.waiting + a.wasted + if a.pending then 1 else 0

/-- **Books one event** for the component `c` of the instance `i` with these pulse slots. -/
def enter (i : InstanceId) (c : Nat) (slots : List Nat) (event : Event) (a : Account) : Account :=
  if event.isBirth i then {}
  else if event.isPulse i slots then { a.commit with pending := true }
  else if event.isFiring i c then a.fire
  else if event.isSettlement i c then a.settle
  else a.commit

section

variable (i : InstanceId) (c : Nat) (slots : List Nat) (a : Account)

theorem enter_delivered (j : InstanceId) (slot target : Nat) (v : Value) :
    a.enter i c slots (.delivered j slot target v)
      = if Event.isPulse i slots (.delivered j slot target v) then { a.commit with pending := true }
        else a.commit := rfl

theorem enter_pushed (t : Task) :
    a.enter i c slots (.pushed t)
      = if Event.isFiring i c (.pushed t) then a.fire else a.commit := rfl

theorem enter_settled (j : InstanceId) (c' : Nat) :
    a.enter i c slots (.settled j c')
      = if Event.isSettlement i c (.settled j c') then a.settle else a.commit := rfl

end

end Account

/-- **The account of a component** since its instance began. -/
def account (i : InstanceId) (c : Nat) (slots : List Nat) (journal : List Event) : Account :=
  journal.foldr (Account.enter i c slots) {}

/-- What happened since an instance began. -/
def since (i : InstanceId) (journal : List Event) : List Event :=
  journal.takeWhile fun event => !event.isBirth i

/-- How often a component was queued, other than to go on with its work. -/
def firings (i : InstanceId) (c : Nat) (journal : List Event) : Nat :=
  (since i journal).countP (Event.isFiring i c)

/-- How many pulses came to these slots. -/
def pulses (i : InstanceId) (slots : List Nat) (journal : List Event) : Nat :=
  (since i journal).countP (Event.isPulse i slots)

/-! ## 3. The account adds up -/

theorem since_of_birth {i : InstanceId} {event : Event} (h : event.isBirth i = true)
    (earlier : List Event) : since i (event :: earlier) = [] := by
  unfold since
  rw [List.takeWhile_cons_of_neg (by simp [h])]

theorem since_cons {i : InstanceId} {event : Event} (h : event.isBirth i = false)
    (earlier : List Event) : since i (event :: earlier) = event :: since i earlier := by
  unfold since
  rw [List.takeWhile_cons_of_pos (by simp [h])]

namespace Account

theorem commit_cases (a : Account) :
    (a.pending = false ∧ a.commit = a)
    ∨ (a.pending = true
      ∧ a.commit = { a with pending := false, stays := true, waiting := a.waiting + 1 }) := by
  unfold commit
  cases a.pending with
  | false => exact Or.inl ⟨rfl, rfl⟩
  | true => exact Or.inr ⟨rfl, rfl⟩

theorem unfired_commit (a : Account) : a.commit.unfired = a.unfired := by
  unfold unfired
  rcases a.commit_cases with ⟨_, he⟩ | ⟨hp, he⟩
  · rw [he]
  · rw [he, hp]
    simp only [Bool.false_eq_true, if_false, if_true]
    omega

theorem pending_commit (a : Account) : a.commit.pending = false := by
  rcases a.commit_cases with ⟨hp, he⟩ | ⟨_, he⟩
  · rw [he, hp]
  · rw [he]

/-- Firings of the account. -/
def fired (a : Account) : Nat := a.direct + a.resumed + a.repeated + a.stray

/-- Pulses of the account. -/
def received (a : Account) : Nat := a.direct + a.resumed + a.unfired

theorem fired_commit (a : Account) : a.commit.fired = a.fired := by
  rcases a.commit_cases with ⟨_, he⟩ | ⟨_, he⟩
  · rw [he]
  · rw [he]
    rfl

theorem received_commit (a : Account) : a.commit.received = a.received := by
  unfold received
  rw [unfired_commit]
  rcases a.commit_cases with ⟨_, he⟩ | ⟨_, he⟩
  · rw [he]
  · rw [he]

theorem fired_fire (a : Account) : a.fire.fired = a.fired + 1 := by
  unfold fire fired
  split
  · dsimp only
    omega
  split
  · dsimp only
    omega
  split
  · dsimp only
    omega
  · dsimp only
    omega

theorem received_fire (a : Account) : a.fire.received = a.received := by
  unfold fire received unfired
  split
  · simp only [Bool.false_eq_true, if_false]
    omega
  split
  · dsimp only
    omega
  · split <;> rfl

end Account

section

variable (i : InstanceId) (c : Nat) (slots : List Nat)

/-- **Every firing is booked.** -/
theorem fired_account (journal : List Event) :
    (account i c slots journal).fired = firings i c journal := by
  unfold firings
  induction journal with
  | nil => rfl
  | cons event earlier ih =>
    show (Account.enter i c slots event (account i c slots earlier)).fired = _
    unfold Account.enter
    split
    · next hb =>
      rw [since_of_birth hb]
      rfl
    next hb =>
    rw [since_cons (Bool.eq_false_iff.mpr hb), List.countP_cons, ← ih]
    split
    · next hpulse =>
      have hfiring : event.isFiring i c = false := by
        cases event <;> first | rfl | cases hpulse
      rw [hfiring]
      exact Account.fired_commit _
    split
    · exact Account.fired_fire _
    split
    · exact Account.fired_commit _
    · exact Account.fired_commit _

/-- **Every pulse is booked.** -/
theorem received_account (journal : List Event) :
    (account i c slots journal).received = pulses i slots journal := by
  unfold pulses
  induction journal with
  | nil => rfl
  | cons event earlier ih =>
    show (Account.enter i c slots event (account i c slots earlier)).received = _
    unfold Account.enter
    split
    · next hb =>
      rw [since_of_birth hb]
      rfl
    next hb =>
    rw [since_cons (Bool.eq_false_iff.mpr hb), List.countP_cons, ← ih]
    generalize account i c slots earlier = a
    split
    · rw [← a.received_commit]
      have hp := a.pending_commit
      unfold Account.received Account.unfired
      rw [hp]
      simp only [Bool.false_eq_true, if_false, if_true]
      omega
    split
    · exact a.received_fire
    split
    · rw [← a.received_commit]
      have hp := a.pending_commit
      unfold Account.settle Account.received Account.unfired
      rw [hp]
      simp only [Bool.false_eq_true, if_false]
      omega
    · exact a.received_commit

/-- A pulse is pending only if it came last. -/
theorem pending_account {journal : List Event} (h : (account i c slots journal).pending = true) :
    ∃ event earlier, journal = event :: earlier ∧ event.isPulse i slots = true := by
  cases journal with
  | nil => cases h
  | cons event earlier =>
    refine ⟨event, earlier, rfl, Classical.byContradiction fun hpulse => ?_⟩
    change (Account.enter i c slots event (account i c slots earlier)).pending = true at h
    unfold Account.enter at h
    split at h
    · cases h
    generalize account i c slots earlier = a at h
    split at h
    · unfold Account.fire at h
      split at h
      · cases h
      next hp =>
      split at h
      · exact hp h
      split at h
      · exact hp h
      · exact hp h
    split at h
    · change a.commit.pending = true at h
      rw [a.pending_commit] at h
      cases h
    · rw [a.pending_commit] at h
      cases h

end

end InstrumentFlow
