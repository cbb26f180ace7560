import InstrumentFlow.Proofs.Transactions.Trade

/-!
# The step of an SCPI component

In the middle of its step an SCPI component has taken its progress away. What it waits for is in its
hands, and agrees with what the journal tells from part to part.

* `itself` -- one component only;
* `Speaks` -- a component is in the middle of its step and waits for a transaction, or for none;
* `Speaks.mute`, `Speaks.dispatched`, `Speaks.collected`, ... -- how that goes on;
* `upholds_speaks_transact`, `upholds_speaks_runParts` -- requests, and parts up to the next wait;
* `upholds_speaks_stepScpi` -- a step that is suspended puts back what the component waits for.
-/

namespace InstrumentFlow.Engine

open Scpi

/-! ## 1. In the middle of a step -/

/-- One component only. -/
def itself (i : InstanceId) (index : Nat) : InstanceId → Nat → Bool :=
  fun j c => j = i ∧ c = index

theorem itself_self (i : InstanceId) (index : Nat) : itself i index i index = true :=
  decide_eq_true ⟨rfl, rfl⟩

/-- **A component is in the middle of its step** and waits for a transaction, or for none. All others
    were spared since the step began. -/
structure Speaks (i : InstanceId) (index : Nat) (e₀ : Engine) (pending : Option Nat)
    (e : Engine) : Prop where
  running : (exchange i index e.journal).running = true
  waits : (outstanding? i index e.journal).map (·.transaction) = pending
  inTurn : ∀ j c, InTurn j c e₀.journal → InTurn j c e.journal
  uses : Uses e₀ e
  others : ∀ j c, itself i index j c = false → Spares j c e₀ e

/-- A component is in the middle of its step. -/
abbrev Spoken (i : InstanceId) (index : Nat) (e₀ e : Engine) : Prop :=
  ∃ pending, Speaks i index e₀ pending e

section

variable {i : InstanceId} {index : Nat} {e₀ e e' : Engine} {pending : Option Nat}

/-- What a component says is no concern of others. -/
theorem spares_of_speech {j : InstanceId} {c : Nat} (ho : itself i index j c = false) {event : Event}
    (hs : event.disturbs j c = true → j = i ∧ c = index)
    (hj : e'.journal = event :: e.journal) (hp : e'.progress? j c = e.progress? j c) :
    Spares j c e e' := by
  refine .same ?_ hp
  rw [hj]
  refine exchange_cons_of_not_disturbs (Bool.eq_false_iff.mpr fun hd => ?_)
  exact of_decide_eq_false ho (hs hd)

namespace Speaks

/-- Something happens that is not said to the instrument. -/
theorem mute (h : Speaks i index e₀ pending e) (hm : Mute (itself i index) e e') :
    Speaks i index e₀ pending e' := by
  have hx : exchange i index e'.journal = exchange i index e.journal := by
    obtain ⟨news, hj, hn⟩ := hm.news
    rw [hj]
    exact exchange_append_of_running hn h.running
  have haside := hm.aside
  refine ⟨(congrArg Exchange.running hx).trans h.running, ?_, fun j c ht => haside.hushed.inTurn
    (h.inTurn j c ht), h.uses.trans haside.uses, fun j c ho => (h.others j c ho).trans
    (haside.spares j c ho)⟩
  rw [← h.waits]
  exact congrArg (fun x => x.outstanding.map (·.transaction)) hx

theorem outstanding?_none (h : Speaks i index e₀ none e) : outstanding? i index e.journal = none :=
  Option.map_eq_none_iff.mp h.waits

/-- **A component that waits for nothing sends a request.** -/
theorem dispatched (h : Speaks i index e₀ none e) (kind : RequestKind) (text : String)
    (dispatcher : Dispatcher) :
    Speaks i index e₀ (some e.ledger.start.1) ({ e with
      ledger := e.ledger.start.2, dispatcher }.record
        (.dispatched i index ⟨e.ledger.start.1, kind, text⟩)) := by
  have hx := exchange_dispatched i index e.journal
    ⟨e.ledger.start.1, kind, text⟩
  refine ⟨(congrArg Exchange.running hx).trans h.running, ?_, fun j c ht => ?_,
    h.uses.trans (uses_dispatched i index kind text dispatcher), fun j c ho => ?_⟩
  · exact congrArg (fun x => x.outstanding.map (·.transaction)) hx
  · refine (h.inTurn j c ht).cons fun hj hc => ?_
    subst hj hc
    exact h.outstanding?_none
  · refine (h.others j c ho).trans (spares_of_speech ho (fun hd => ?_) rfl rfl)
    obtain ⟨hi, hc⟩ := of_decide_eq_true hd
    exact ⟨hi.symm, hc.symm⟩

/-- A request is refused. -/
theorem refused (h : Speaks i index e₀ pending e) : Speaks i index e₀ pending
    { e with ledger := e.ledger.start.2.close e.ledger.start.1 } :=
  ⟨h.running, h.waits, h.inTurn, h.uses.trans uses_refused, fun j c ho =>
    (h.others j c ho).trans (.same rfl rfl)⟩

/-- **A component collects the answer for which it waits.** -/
theorem collected {n : Nat} {r : Response} (h : Speaks i index e₀ (some n) e)
    (hr : e.ledger.outcome? n = some (.answered r)) :
    Speaks i index e₀ none
      ({ e with ledger := (e.ledger.poll n).2 }.record (.collected i index n r)) := by
  have hx := exchange_collected i index e.journal n r
  refine ⟨(congrArg Exchange.running hx).trans h.running, ?_, fun j c ht => ?_,
    h.uses.trans (uses_collected i index hr), fun j c ho => ?_⟩
  · exact congrArg (fun x => x.outstanding.map (·.transaction)) hx
  · refine (h.inTurn j c ht).cons fun hj hc => ?_
    subst hj hc
    exact Option.map_eq_some_iff.mp h.waits
  · refine (h.others j c ho).trans (spares_of_speech ho (fun hd => ?_) rfl rfl)
    obtain ⟨hi, hc⟩ := of_decide_eq_true hd
    exact ⟨hi.symm, hc.symm⟩

end Speaks

/-! ## 2. Requests and answers -/

/-- In the middle of its step a component does something that is not said to the instrument. -/
theorem Mutes.speaks {α : Type} {a : Act α} (ha : Mutes (itself i index) a)
    (h : Speaks i index e₀ pending e) :
    Upholds (Spoken i index e₀) (fun _ e' => Speaks i index e₀ pending e') a e := by
  have hmute := ha e
  unfold Upholds at hmute ⊢
  split at hmute
  · exact ⟨⟨pending, h.mute hmute.1⟩, h.mute hmute.1⟩
  · exact ⟨pending, h.mute hmute⟩

theorem upholds_speaks_dispatch (h : Speaks i index e₀ none e) (kind : RequestKind)
    (text : String) :
    Upholds (Spoken i index e₀) (fun n e' => Speaks i index e₀ (some n) e')
      (dispatch i index kind text) e := by
  unfold dispatch
  refine upholds_get ?_
  dsimp only
  split
  · next dispatcher _ =>
    have hsent := h.dispatched kind text dispatcher
    exact upholds_set_bind (upholds_pure ⟨_, hsent⟩ hsent)
  · exact upholds_set_bind (upholds_throw ⟨none, h.refused⟩)

/-- **A component sends its request, or looks for the answer.** -/
theorem upholds_speaks_transact (kind : RequestKind) {s : ScpiProgress}
    (h : Speaks i index e₀ s.pending e) :
    Upholds (Spoken i index e₀) (fun r e' => Speaks i index e₀ r.2.pending e')
      (transact i index kind s) e := by
  unfold transact
  split
  · next hp =>
    rw [hp] at h
    have hlogged := h.mute (Mute.tolerant.log e i index (requestEntry kind s.text))
    refine upholds_modify_bind ?_
    refine upholds_bind (upholds_speaks_dispatch hlogged kind s.text) fun n e' hs hn => ?_
    exact upholds_pure hs hn
  · next n hp =>
    rw [hp] at h
    refine upholds_get ?_
    dsimp only
    have hcollect (r : Response) (hr : (e.ledger.poll n).1 = .ok (some r)) :=
      h.collected (Ledger.outcome?_of_poll hr)
    have hleave (hr : ∀ r, (e.ledger.poll n).1 ≠ .ok (some r)) :
        Speaks i index e₀ (some n) { e with ledger := (e.ledger.poll n).2 } := by
      rw [Ledger.poll_snd_of_ne hr]
      exact h
    -- only an answer that is there changes the ledger
    split
    · next err heq =>
      have hsame := hleave fun r hr => nomatch heq.symm.trans hr
      exact upholds_set_bind (upholds_throw ⟨_, hsame⟩)
    · next heq =>
      have hsame := hleave fun r hr => nomatch heq.symm.trans hr
      refine upholds_set_bind (upholds_pure ⟨_, hsame⟩ ?_)
      rw [hp]
      exact hsame
    · next r heq =>
      have hnone := hcollect r heq
      exact upholds_set_bind (upholds_pure ⟨_, hnone⟩ hnone)

/-! ## 3. Parts -/

/-- Where a run through parts stands, its component waits for what it says. -/
def Walk.Speaks (i : InstanceId) (index : Nat) (e₀ e : Engine) : Walk → Prop
  | .onward s | .waiting s => Engine.Speaks i index e₀ s.pending e
  | .finished => True

theorem upholds_speaks_runVerb (kind : RequestKind) (assigns : Bool) (body : List UInt8)
    {s : ScpiProgress} (h : Speaks i index e₀ s.pending e) :
    Upholds (Spoken i index e₀) (fun w e' => w.Speaks i index e₀ e')
      (runVerb i index kind assigns body s) e := by
  unfold runVerb
  refine upholds_bind (upholds_speaks_transact kind h) fun r e₁ hs h => ?_
  obtain ⟨response, s'⟩ := r
  dsimp only at h ⊢
  split
  · exact upholds_pure hs h
  next r =>
  have hgoes : ∀ (e₁ : Engine), Speaks i index e₀ s'.pending e₁ →
      Upholds (Spoken i index e₀) (fun w e' => w.Speaks i index e₀ e')
        (do
          let consumed ← if assigns then assignAnswer i index body r.text else pure 0
          return Walk.onward { s' with cursor := s'.cursor + 1 + consumed, text := "" }) e₁ := by
    intro e₁ h
    split
    · have hassign := Mutes.speaks (Mute.tolerant.maintains_assignAnswer i index body r.text) h
      exact upholds_bind hassign fun _ _ hs h =>
        upholds_pure hs h
    · exact upholds_bind (Mutes.speaks (Mute.tolerant.pure 0) h) fun _ _ hs h => upholds_pure hs h
  split
  · exact upholds_get (upholds_throw hs)
  · split
    · exact upholds_modify_bind (hgoes _ (h.mute (Mute.tolerant.log e₁ i index _)))
    · exact hgoes e₁ h

theorem upholds_speaks_runPart (flow : Nat) (payload : List UInt8) {s : ScpiProgress}
    (h : Speaks i index e₀ s.pending e) :
    Upholds (Spoken i index e₀) (fun w e' => w.Speaks i index e₀ e')
      (runPart i index flow payload s) e := by
  unfold runPart
  dsimp only
  split
  · exact upholds_throw ⟨_, h⟩
  · exact upholds_pure ⟨_, h⟩ h
  · refine upholds_bind (Mutes.speaks (Mute.tolerant.maintains_evaluateIn _ i _ [] false) h)
      fun v e' _ h => ?_
    exact upholds_bind (Mutes.speaks (Mute.tolerant.maintains_textOf _) h) fun _ e' hs h =>
      upholds_pure hs h
  · exact upholds_speaks_runVerb _ _ _ h
  · exact upholds_speaks_runVerb _ _ _ h
  · exact upholds_speaks_runVerb _ _ _ h
  · exact upholds_pure ⟨_, h⟩ trivial

/-- **Parts up to the next wait.** -/
theorem upholds_speaks_runParts (flow : Nat) (payload : List UInt8) (more : Nat)
    {s : ScpiProgress} (h : Speaks i index e₀ s.pending e) :
    Upholds (Spoken i index e₀) (fun r e' => ∀ s, r = some s → Speaks i index e₀ s.pending e')
      (runParts i index flow payload more s) e := by
  induction more generalizing e s with
  | zero => exact upholds_throw ⟨_, h⟩
  | succ more ih =>
    unfold runParts
    refine upholds_bind (upholds_speaks_runPart flow payload h) fun w e' hs h => ?_
    split
    · exact ih h
    · next s' =>
      refine upholds_pure hs fun s'' heq => ?_
      rw [← Option.some.inj heq]
      exact h
    · exact upholds_pure hs fun _ heq => nomatch heq

/-! ## 4. Steps -/

/-- **The step of an SCPI component**: where it is suspended, it puts back what it waits for. -/
theorem upholds_speaks_stepScpi {closed : Prop} (hi : Inv closed e) {c : Component}
    (hc : e.componentOf? i index = some c)
    (h : Speaks i index e₀ (e.pendingOf i index) e) :
    Upholds (Spoken i index e₀)
      (fun r e' => r = .suspended → Speaks i index e₀ (e'.pendingOf i index) e')
      (stepScpi i index c) e := by
  have ho := itself_self i index
  have hcheckIn (hadProgress : Bool) (p : Option Progress) :
      Mutes (itself i index) (checkIn i index hadProgress p) :=
    Mute.tolerant.maintains_checkIn ho hadProgress p
  -- the component has a place for its progress, before its parts and after them
  have hroom : e.hasComponent i index = true := hasComponent_of_componentOf? hi hc
  have hout : Upholds (Spoken i index e₀)
      (fun p e₁ => p = e.progress? i index ∧ Strokes closed nobody e e₁
        ∧ Speaks i index e₀ (e.pendingOf i index) e₁) (checkOut i index) e := by
    have hstrokes : Strokes closed nobody e (e.setProgress i index none) :=
      strokes_setProgress .refl i index (fun _ => rfl) (fun _ hq => nomatch hq)
        fun _ => countsAt_none e i
    have hset := h.mute (Mute.setProgress e ho none)
    exact upholds_get (upholds_set_bind (upholds_pure ⟨_, hset⟩ ⟨rfl, hstrokes, hset⟩))
  unfold stepScpi
  refine upholds_bind hout fun p e₁ _ h₁ => upholds_get ?_
  obtain ⟨rfl, hstrokes, h₁⟩ := h₁
  dsimp only
  have hparts : Upholds (Spoken i index e₀)
      (fun r e₂ => Strokes closed nobody e₁ e₂
        ∧ ∀ s, r = some s → Speaks i index e₀ s.pending e₂)
      (runParts i index (e₁.flowIndex i) c.payload (c.payload.length + 1)
        (scpiProgress (e.progress? i index))) e₁ := by
    refine ((upholds_speaks_runParts (e₁.flowIndex i) c.payload (c.payload.length + 1) h₁).and
      (upholds_runParts (hstrokes.inv hi) .refl i index (e₁.flowIndex i) c.payload
        (c.payload.length + 1) _)).mono (fun _ h => h.1) fun _ _ hp hq => ⟨hp.2, hq.1⟩
  refine upholds_bind (upholds_tryCatch hparts fun err e₂ hs => ?_) fun outcome e₂ hs h₂ => ?_
  · obtain ⟨_, hs⟩ := hs
    exact upholds_bind ((hcheckIn _ none).speaks hs) fun _ _ hs _ => upholds_throw hs
  obtain ⟨hstrokes₂, h₂⟩ := h₂
  split
  · next s =>
    have hput := (h₂ s rfl).mute (Mute.tolerant.settleProgress e₂ ho (e.progress? i index).isSome
      (some (.scpi s)))
    refine upholds_modify_bind (upholds_pure ⟨_, hput⟩ fun _ => ?_)
    have hroom₂ : e₂.hasComponent i index = true := by
      rw [hasComponent_calm hstrokes₂.calm, hasComponent_calm hstrokes.calm]
      exact hroom
    have hpending : (e₂.settleProgress i index (e.progress? i index).isSome
        (some (.scpi s))).pendingOf i index = s.pending := by
      unfold pendingOf
      rw [progress?_settleProgress hroom₂]
      rfl
    rw [hpending]
    exact hput
  · obtain ⟨_, hs⟩ := hs
    refine upholds_bind ((hcheckIn _ none).speaks hs) fun _ e₃ _ h => ?_
    exact upholds_bind (Mutes.speaks (Mute.tolerant.maintains_pulse i index) h) fun _ _ hs _ =>
      upholds_pure hs fun hr => nomatch hr

end

end InstrumentFlow.Engine
