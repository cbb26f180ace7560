import InstrumentFlow.Expression.Stack

/-!
# What an activity guarantees

An activity can fail, and a failure keeps what was done before it. What it guarantees about the
state must therefore hold after either end.

* `bind_of_ok`, `bind_of_error`, `bind_eq_ok` -- what comes of the first part of an activity;
* `Upholds` -- after the activity the state is as promised, whether it failed or not, and so is its
  result, if there is one;
* `upholds_bind`, `upholds_get`, ... -- one rule for each way to put activities together;
* `stateAfter` -- the state in which an activity leaves off;
* `Ends`, `ends_bind` -- the same where a failure leaves something else than a result does;
* `Yields`, `yields_bind`, ... -- the same where it matters what fails;
* `Carries`, `carries_bind`, ... -- an activity does the same from a changed state.
-/

namespace InstrumentFlow

variable {ε σ α β : Type}

theorem bind_of_ok {x : EStateM ε σ α} {f : α → EStateM ε σ β} {s s' : σ} {r : α}
    (h : x s = .ok r s') : (x >>= f) s = f r s' := by
  show EStateM.bind x f s = f r s'
  unfold EStateM.bind
  rw [h]

theorem bind_of_error {x : EStateM ε σ α} {f : α → EStateM ε σ β} {s s' : σ} {err : ε}
    (h : x s = .error err s') : (x >>= f) s = .error err s' := by
  show EStateM.bind x f s = .error err s'
  unfold EStateM.bind
  rw [h]

/-- A result comes from a result of the first part. -/
theorem bind_eq_ok {x : EStateM ε σ α} {f : α → EStateM ε σ β} {s s' : σ} {r : β}
    (h : (x >>= f) s = .ok r s') : ∃ a s₁, x s = .ok a s₁ ∧ f a s₁ = .ok r s' := by
  cases hx : x s with
  | ok a s₁ =>
    rw [bind_of_ok hx] at h
    exact ⟨a, s₁, rfl, h⟩
  | error err s₁ =>
    rw [bind_of_error hx] at h
    cases h

/-- From the state `s` the activity ends in a state with `P`, and a result has `Q`. -/
def Upholds (P : σ → Prop) (Q : α → σ → Prop) (a : EStateM ε σ α) (s : σ) : Prop :=
  match a s with
  | .ok r s' => P s' ∧ Q r s'
  | .error _ s' => P s'

variable {P : σ → Prop} {Q : α → σ → Prop} {s : σ}

theorem Upholds.of_ok {a : EStateM ε σ α} {r : α} {s' : σ} (h : Upholds P Q a s)
    (ha : a s = .ok r s') : P s' ∧ Q r s' := by
  unfold Upholds at h
  rwa [ha] at h

theorem Upholds.of_error {a : EStateM ε σ α} {err : ε} {s' : σ} (h : Upholds P Q a s)
    (ha : a s = .error err s') : P s' := by
  unfold Upholds at h
  rwa [ha] at h

theorem Upholds.mono {P' : σ → Prop} {Q' : α → σ → Prop} {a : EStateM ε σ α}
    (h : Upholds P Q a s) (hp : ∀ s', P s' → P' s') (hq : ∀ r s', P s' → Q r s' → Q' r s') :
    Upholds P' Q' a s := by
  unfold Upholds at h ⊢
  split at h
  · exact ⟨hp _ h.1, hq _ _ h.1 h.2⟩
  · exact hp _ h

/-- What an activity guarantees in two ways it guarantees together. -/
theorem Upholds.and {P' : σ → Prop} {Q' : α → σ → Prop} {a : EStateM ε σ α}
    (h : Upholds P Q a s) (h' : Upholds P' Q' a s) :
    Upholds (fun s' => P s' ∧ P' s') (fun r s' => Q r s' ∧ Q' r s') a s := by
  unfold Upholds at h h' ⊢
  split at h
  · next ha =>
    rw [ha] at h'
    exact ⟨⟨h.1, h'.1⟩, h.2, h'.2⟩
  · next ha =>
    rw [ha] at h'
    exact ⟨h, h'⟩

theorem upholds_pure {r : α} (hp : P s) (hq : Q r s) :
    Upholds P Q (pure r : EStateM ε σ α) s := ⟨hp, hq⟩

theorem upholds_throw {err : ε} (hp : P s) : Upholds P Q (throw err : EStateM ε σ α) s := hp

theorem upholds_bind {R : α → σ → Prop} {Q : β → σ → Prop} {a : EStateM ε σ α}
    {f : α → EStateM ε σ β} (ha : Upholds P R a s)
    (hf : ∀ r s', P s' → R r s' → Upholds P Q (f r) s') : Upholds P Q (a >>= f) s := by
  unfold Upholds at ha
  show match (EStateM.bind a f) s with
    | .ok r s' => P s' ∧ Q r s'
    | .error _ s' => P s'
  unfold EStateM.bind
  cases h : a s with
  | ok r s' =>
    rw [h] at ha
    exact hf r s' ha.1 ha.2
  | error err s' =>
    rw [h] at ha
    exact ha

/-- After its first part an activity need not be as promised yet. -/
theorem upholds_bind_within {R : α → σ → Prop} {Q : β → σ → Prop} {a : EStateM ε σ α}
    {f : α → EStateM ε σ β} (hok : ∀ r s', a s = .ok r s' → R r s')
    (herror : ∀ err s', a s = .error err s' → P s')
    (hf : ∀ r s', R r s' → Upholds P Q (f r) s') : Upholds P Q (a >>= f) s := by
  show match (EStateM.bind a f) s with
    | .ok r s' => P s' ∧ Q r s'
    | .error _ s' => P s'
  unfold EStateM.bind
  cases h : a s with
  | ok r s' => exact hf r s' (hok r s' h)
  | error err s' => exact herror err s' h

/-- An activity that reads the state first. -/
theorem get_bind_apply (f : σ → EStateM ε σ β) (s : σ) : (get >>= f) s = f s s := rfl

theorem upholds_get {Q : β → σ → Prop} {f : σ → EStateM ε σ β} (h : Upholds P Q (f s) s) :
    Upholds P Q (get >>= f) s := h

theorem upholds_set {s' : σ} {Q : PUnit → σ → Prop} (hp : P s') (hq : Q ⟨⟩ s') :
    Upholds P Q (set s' : EStateM ε σ PUnit) s := ⟨hp, hq⟩

/-- A state that is set need not be as promised yet. -/
theorem upholds_set_bind {s' : σ} {Q : β → σ → Prop} {f : PUnit → EStateM ε σ β}
    (h : Upholds P Q (f ⟨⟩) s') : Upholds P Q (set s' >>= f) s := h

theorem upholds_modify {g : σ → σ} {Q : PUnit → σ → Prop} (hp : P (g s)) (hq : Q ⟨⟩ (g s)) :
    Upholds P Q (modify g : EStateM ε σ PUnit) s := ⟨hp, hq⟩

theorem upholds_modify_bind {g : σ → σ} {Q : β → σ → Prop} {f : PUnit → EStateM ε σ β}
    (h : Upholds P Q (f ⟨⟩) (g s)) : Upholds P Q (modify g >>= f) s := h

/-- The handler of a failure starts where the failure left the state. -/
theorem upholds_tryCatch {a : EStateM ε σ α} {handle : ε → EStateM ε σ α} (ha : Upholds P Q a s)
    (hh : ∀ err s', P s' → Upholds P Q (handle err) s') : Upholds P Q (tryCatch a handle) s := by
  unfold Upholds at ha
  show match (EStateM.tryCatch a handle) s with
    | .ok r s' => P s' ∧ Q r s'
    | .error _ s' => P s'
  unfold EStateM.tryCatch
  cases h : a s with
  | ok r s' =>
    rw [h] at ha
    simpa [h] using ha
  | error err s' =>
    rw [h] at ha
    exact hh err s' ha

/-- The state in which an activity leaves off. -/
def stateAfter (r : EStateM.Result ε σ α) : σ :=
  match r with
  | .ok _ s => s
  | .error _ s => s

theorem Upholds.after {a : EStateM ε σ α} (h : Upholds P Q a s) : P (stateAfter (a s)) := by
  unfold Upholds at h
  unfold stateAfter
  cases ha : a s with
  | ok r s' =>
    rw [ha] at h
    exact h.1
  | error err s' =>
    rw [ha] at h
    exact h

/-- From the state `s` a failure of the activity leaves `E`, and a result comes with `Q`. -/
def Ends (E : σ → Prop) (Q : α → σ → Prop) (a : EStateM ε σ α) (s : σ) : Prop :=
  match a s with
  | .ok r s' => Q r s'
  | .error _ s' => E s'

theorem Upholds.ends {a : EStateM ε σ α} (h : Upholds P Q a s) :
    Ends P (fun r s' => P s' ∧ Q r s') a s := h

theorem Ends.mono {E E' : σ → Prop} {Q Q' : α → σ → Prop} {a : EStateM ε σ α} (h : Ends E Q a s)
    (he : ∀ s', E s' → E' s') (hq : ∀ r s', Q r s' → Q' r s') : Ends E' Q' a s := by
  unfold Ends at h ⊢
  split at h
  · exact hq _ _ h
  · exact he _ h

theorem ends_get {E : σ → Prop} {Q : β → σ → Prop} {f : σ → EStateM ε σ β}
    (h : Ends E Q (f s) s) : Ends E Q (get >>= f) s := h

theorem ends_bind {E : σ → Prop} {R : α → σ → Prop} {Q : β → σ → Prop} {a : EStateM ε σ α}
    {f : α → EStateM ε σ β} (ha : Ends E R a s) (hf : ∀ r s', R r s' → Ends E Q (f r) s') :
    Ends E Q (a >>= f) s := by
  unfold Ends at ha
  show match (EStateM.bind a f) s with
    | .ok r s' => Q r s'
    | .error _ s' => E s'
  unfold EStateM.bind
  cases h : a s with
  | ok r s' =>
    rw [h] at ha
    exact hf r s' ha
  | error err s' =>
    rw [h] at ha
    exact ha

/-- From the state `s` a failure of the activity comes with `F`, and a result with `Q`. -/
def Yields (F : ε → σ → Prop) (Q : α → σ → Prop) (a : EStateM ε σ α) (s : σ) : Prop :=
  match a s with
  | .ok r s' => Q r s'
  | .error err s' => F err s'

section

variable {F : ε → σ → Prop} {R : α → σ → Prop} {U : β → σ → Prop}

theorem Yields.of_ok {a : EStateM ε σ α} {r : α} {s' : σ} (h : Yields F Q a s)
    (ha : a s = .ok r s') : Q r s' := by
  unfold Yields at h
  rwa [ha] at h

theorem Yields.of_error {a : EStateM ε σ α} {err : ε} {s' : σ} (h : Yields F Q a s)
    (ha : a s = .error err s') : F err s' := by
  unfold Yields at h
  rwa [ha] at h

theorem Yields.mono {F' : ε → σ → Prop} {Q' : α → σ → Prop} {a : EStateM ε σ α}
    (h : Yields F Q a s) (hf : ∀ err s', F err s' → F' err s') (hq : ∀ r s', Q r s' → Q' r s') :
    Yields F' Q' a s := by
  unfold Yields at h ⊢
  split at h
  · exact hq _ _ h
  · exact hf _ _ h

theorem yields_pure {r : α} (h : Q r s) : Yields F Q (pure r : EStateM ε σ α) s := h

theorem yields_throw {err : ε} (h : F err s) : Yields F Q (throw err : EStateM ε σ α) s := h

theorem yields_bind {a : EStateM ε σ α} {f : α → EStateM ε σ β} (ha : Yields F R a s)
    (hf : ∀ r s', R r s' → Yields F U (f r) s') : Yields F U (a >>= f) s := by
  unfold Yields at ha
  show match (EStateM.bind a f) s with
    | .ok r s' => U r s'
    | .error err s' => F err s'
  unfold EStateM.bind
  cases h : a s with
  | ok r s' =>
    rw [h] at ha
    exact hf r s' ha
  | error err s' =>
    rw [h] at ha
    exact ha

theorem yields_get {f : σ → EStateM ε σ β} (h : Yields F U (f s) s) :
    Yields F U (get >>= f) s := h

theorem yields_set {s' : σ} {Q : PUnit → σ → Prop} (h : Q ⟨⟩ s') :
    Yields F Q (set s' : EStateM ε σ PUnit) s := h

theorem yields_set_bind {s' : σ} {f : PUnit → EStateM ε σ β} (h : Yields F U (f ⟨⟩) s') :
    Yields F U (set s' >>= f) s := h

theorem yields_modify_bind {g : σ → σ} {f : PUnit → EStateM ε σ β} (h : Yields F U (f ⟨⟩) (g s)) :
    Yields F U (modify g >>= f) s := h

theorem yields_tryCatch {a : EStateM ε σ α} {handle : ε → EStateM ε σ α} (ha : Yields F R a s)
    (hh : ∀ err s', F err s' → Yields F R (handle err) s') :
    Yields F R (tryCatch a handle) s := by
  unfold Yields at ha
  show match (EStateM.tryCatch a handle) s with
    | .ok r s' => R r s'
    | .error err s' => F err s'
  unfold EStateM.tryCatch
  cases h : a s with
  | ok r s' =>
    rw [h] at ha
    simpa [h] using ha
  | error err s' =>
    rw [h] at ha
    exact hh err s' ha

end

/-- The outcome of an activity with its state changed. -/
def mapState (h : σ → σ) (r : EStateM.Result ε σ α) : EStateM.Result ε σ α :=
  match r with
  | .ok r s => .ok r (h s)
  | .error err s => .error err (h s)

/-- From the state `s` as changed by `h` the activity `a'` does what `a` does from `s` itself. The
    two differ in what they read from their states. -/
def Carries (h : σ → σ) (a' a : EStateM ε σ α) (s : σ) : Prop := a' (h s) = mapState h (a s)

section

variable {h : σ → σ}

theorem carries_pure (r : α) : Carries h (pure r : EStateM ε σ α) (pure r) s := rfl

theorem carries_throw (err : ε) : Carries h (throw err : EStateM ε σ α) (throw err) s := rfl

theorem carries_bind {a' a : EStateM ε σ α} {f' f : α → EStateM ε σ β} (ha : Carries h a' a s)
    (hf : ∀ r s', Carries h (f' r) (f r) s') : Carries h (a' >>= f') (a >>= f) s := by
  unfold Carries at ha
  show EStateM.bind a' f' (h s) = mapState h (EStateM.bind a f s)
  unfold EStateM.bind
  rw [ha]
  cases a s with
  | ok r s' => exact hf r s'
  | error err s' => rfl

theorem carries_get {f' f : σ → EStateM ε σ β} (hf : Carries h (f' (h s)) (f s) s) :
    Carries h (get >>= f') (get >>= f) s := hf

theorem carries_set {t' t : σ} (ht : t' = h t) :
    Carries h (set t' : EStateM ε σ PUnit) (set t) s := congrArg (EStateM.Result.ok PUnit.unit) ht

theorem carries_set_bind {t' t : σ} {f' f : PUnit → EStateM ε σ β} (ht : t' = h t)
    (hf : Carries h (f' ⟨⟩) (f ⟨⟩) t) : Carries h (set t' >>= f') (set t >>= f) s :=
  (congrArg (f' ⟨⟩) ht).trans hf

theorem carries_modify {g : σ → σ} (hg : g (h s) = h (g s)) :
    Carries h (modify g : EStateM ε σ PUnit) (modify g) s := by
  show EStateM.Result.ok PUnit.unit (g (h s)) = .ok PUnit.unit (h (g s))
  rw [hg]

theorem carries_modify_bind {g : σ → σ} {f' f : PUnit → EStateM ε σ β} (hg : g (h s) = h (g s))
    (hf : Carries h (f' ⟨⟩) (f ⟨⟩) (g s)) : Carries h (modify g >>= f') (modify g >>= f) s :=
  (congrArg (f' ⟨⟩) hg).trans hf

end

end InstrumentFlow
