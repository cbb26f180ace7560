import InstrumentFlow.Proofs.Dialogue.Interpretation

/-!
# Parts and their interpretation

Between two waits a component goes through parts as the interpretation of its payload does.

* `grows_runParts` -- parts forget nothing of what was told;
* `follows_hear` -- a component that collects its answer does what the interpretation does then;
* `Stops` -- where a run through parts stops, and where the interpretation is by then;
* `stops_runParts`, `stops_heard` -- **parts up to the next wait**, without a pending transaction
  and after its answer.
-/

namespace InstrumentFlow.Engine

open Scpi

/-! ## 1. What was told stays told -/

section

variable {e₀ e : Engine} {i : InstanceId} {component : Nat}

theorem Mutes.grows {α : Type} {y : Act α} (hy : Mutes noOne y)
    (h : e₀.journal <:+ e.journal) :
    Upholds (fun e' => e₀.journal <:+ e'.journal) (fun _ _ => True) y e :=
  (hy e).mono (fun _ hm => by
    obtain ⟨news, hj, _⟩ := hm.news
    exact h.trans ⟨news, hj.symm⟩) fun _ _ _ _ => trivial

theorem grows_dispatch (h : e₀.journal <:+ e.journal) (kind : RequestKind) (text : String) :
    Upholds (fun e' => e₀.journal <:+ e'.journal) (fun _ _ => True)
      (dispatch i component kind text) e := by
  unfold dispatch
  refine upholds_get ?_
  dsimp only
  split
  · have hsent := h.trans (List.suffix_cons
      (.dispatched i component ⟨e.ledger.start.1, kind, text⟩) e.journal)
    exact upholds_set_bind (upholds_pure hsent trivial)
  · exact upholds_set_bind (upholds_throw h)

theorem grows_transact (h : e₀.journal <:+ e.journal) (kind : RequestKind) (s : ScpiProgress) :
    Upholds (fun e' => e₀.journal <:+ e'.journal) (fun _ _ => True)
      (transact i component kind s) e := by
  unfold transact
  split
  · refine upholds_modify_bind ?_
    have hlogged := h.trans (List.suffix_cons
      (.logged i component (requestEntry kind s.text)) e.journal)
    exact upholds_bind (grows_dispatch hlogged kind s.text) fun _ _ h _ => upholds_pure h trivial
  · next transaction _ =>
    refine upholds_get ?_
    dsimp only
    split
    · exact upholds_set_bind (upholds_throw h)
    · exact upholds_set_bind (upholds_pure h trivial)
    · next r _ =>
      have hcollected := h.trans (List.suffix_cons
        (.collected i component transaction r) e.journal)
      exact upholds_set_bind (upholds_pure hcollected trivial)

theorem grows_runVerb (h : e₀.journal <:+ e.journal) (kind : RequestKind) (assigns : Bool)
    (body : List UInt8) (s : ScpiProgress) :
    Upholds (fun e' => e₀.journal <:+ e'.journal) (fun _ _ => True)
      (runVerb i component kind assigns body s) e := by
  unfold runVerb
  refine upholds_bind (grows_transact h kind s) fun r e₁ h _ => ?_
  obtain ⟨response, s'⟩ := r
  dsimp only
  split
  · exact upholds_pure h trivial
  next r =>
  have hgoes (e₁ : Engine) (h : e₀.journal <:+ e₁.journal) :
      Upholds (fun e' => e₀.journal <:+ e'.journal) (fun _ _ => True)
        (do
          let consumed ← if assigns then assignAnswer i component body r.text else pure 0
          return Walk.onward { s' with cursor := s'.cursor + 1 + consumed, text := "" }) e₁ := by
    split
    · have hassign := Mutes.grows (Mute.tolerant.maintains_assignAnswer i component body r.text) h
      exact upholds_bind hassign fun _ _ h _ =>
        upholds_pure h trivial
    · exact upholds_pure h trivial
  split
  · exact upholds_get (upholds_throw h)
  · split
    · exact upholds_modify_bind (hgoes _ (h.trans (List.suffix_cons _ _)))
    · exact hgoes e₁ h

theorem grows_runPart (h : e₀.journal <:+ e.journal) (flow : Nat) (payload : List UInt8)
    (s : ScpiProgress) :
    Upholds (fun e' => e₀.journal <:+ e'.journal) (fun _ _ => True)
      (runPart i component flow payload s) e := by
  unfold runPart
  dsimp only
  split
  · exact upholds_throw h
  · exact upholds_pure h trivial
  · refine upholds_bind (Mutes.grows (Mute.tolerant.maintains_evaluateIn _ i _ [] false) h)
      fun _ _ h _ => ?_
    exact upholds_bind (Mutes.grows (Mute.tolerant.maintains_textOf _) h) fun _ _ h _ =>
      upholds_pure h trivial
  · exact grows_runVerb h _ _ _ s
  · exact grows_runVerb h _ _ _ s
  · exact grows_runVerb h _ _ _ s
  · exact upholds_pure h trivial

/-- **Parts forget nothing of what was told.** -/
theorem grows_runParts (h : e₀.journal <:+ e.journal) (flow : Nat) (payload : List UInt8)
    (more : Nat) (s : ScpiProgress) :
    Upholds (fun e' => e₀.journal <:+ e'.journal) (fun _ _ => True)
      (runParts i component flow payload more s) e := by
  induction more generalizing e s with
  | zero => exact upholds_throw h
  | succ more ih =>
    unfold runParts
    refine upholds_bind (grows_runPart h flow payload s) fun w _ h _ => ?_
    split
    · exact ih h _
    · exact upholds_pure h trivial
    · exact upholds_pure h trivial

end

/-! ## 2. Requests and answers -/

section

variable (i : InstanceId) (component : Nat) {kind : RequestKind} {text : String} {e : Engine}

theorem dispatch_accepted {d : Dispatcher}
    (hd : offerRequest e.dispatcher ⟨e.ledger.start.1, kind, text⟩ = .ok d) :
    dispatch i component kind text e = .ok e.ledger.start.1
      ({ e with ledger := e.ledger.start.2, dispatcher := d }.record
        (.dispatched i component ⟨e.ledger.start.1, kind, text⟩)) := by
  unfold dispatch
  rw [get_bind_apply]
  dsimp only
  rw [hd]
  rfl

theorem dispatch_refused {refusal : Refusal}
    (hd : offerRequest e.dispatcher ⟨e.ledger.start.1, kind, text⟩ = .error refusal) :
    dispatch i component kind text e = .error (.dispatch refusal)
      { e with ledger := e.ledger.start.2.close e.ledger.start.1 } := by
  unfold dispatch
  rw [get_bind_apply]
  dsimp only
  rw [hd]
  rfl

variable {i component} {s : ScpiProgress} {t : Nat} (hp : s.pending = some t)
include hp

/-- **An empty poll changes nothing.** -/
theorem transact_waiting (ho : e.ledger.outcome? t = some .waiting) :
    transact i component kind s e = .ok (none, s) e := by
  have hpoll : e.ledger.poll t = (.ok none, e.ledger) := by
    unfold Ledger.poll
    rw [ho]
  unfold transact
  rw [hp]
  dsimp only
  rw [get_bind_apply, hpoll]
  rfl

theorem transact_closed (ho : e.ledger.outcome? t = some .closed) :
    transact i component kind s e = .error .resultUnavailable e := by
  have hpoll : e.ledger.poll t = (.error .resultUnavailable, e.ledger) := by
    unfold Ledger.poll
    rw [ho]
  unfold transact
  rw [hp]
  dsimp only
  rw [get_bind_apply, hpoll]
  rfl

theorem transact_answered {r : Response} (ho : e.ledger.outcome? t = some (.answered r)) :
    transact i component kind s e = .ok (some r, { s with pending := none })
      ({ e with ledger := e.ledger.replace t .closed }.record (.collected i component t r)) := by
  have hpoll : e.ledger.poll t = (.ok (some r), e.ledger.replace t .closed) := by
    unfold Ledger.poll
    rw [ho]
  unfold transact
  rw [hp]
  dsimp only
  rw [get_bind_apply, hpoll]
  rfl

end

section

variable {i : InstanceId} {n : Nat} {a₀ e₀ a e : Engine}

/-- **A component that sends its request** waits for it, or the request is refused. -/
theorem transact_asks (h : Akin i 0 a₀ e₀ a e) (component : Nat) (kind : RequestKind)
    {s : ScpiProgress} (hp : s.pending = none) {x : Reaction} (hd : Meets x e₀.dispatcher) :
    (∃ err a' e', ask i component kind s.text x a = .error err a'
      ∧ transact i component kind s e = .error err e' ∧ Akin i 0 a₀ e₀ a' e')
    ∨ ∃ t a' e', ask i component kind s.text x a = .ok ⟨⟩ (a'.standBy i component)
      ∧ transact i component kind s e = .ok (none, { s with pending := some t }) e'
      ∧ Akin i 1 a₀ e₀ a' e' := by
  have hlogged := h.record (.logged i component (requestEntry kind s.text)) rfl
  have hmeets := hd ⟨e.ledger.start.1, kind, s.text⟩
  rw [← h.dispatcher rfl] at hmeets
  have htransact : transact i component kind s e
      = (dispatch i component kind s.text >>= fun t => pure (none, { s with pending := some t }))
        (e.log i component (requestEntry kind s.text)) := by
    unfold transact
    rw [hp]
    rfl
  rw [htransact]
  have haccepted {d : Dispatcher}
      (hd : offerRequest e.dispatcher ⟨e.ledger.start.1, kind, s.text⟩ = .ok d) :=
    bind_of_ok (f := fun t => (pure (none, { s with pending := some t }) :
        Act (Option Response × ScpiProgress)))
      (dispatch_accepted i component (e := e.log i component (requestEntry kind s.text)) hd)
  cases x with
  | refused refusal =>
    have hrefused := dispatch_refused i component
      (e := e.log i component (requestEntry kind s.text)) hmeets
    refine Or.inl ⟨.dispatch refusal, _, _, rfl, bind_of_error hrefused, ?_⟩
    exact hlogged.unseen rfl rfl [] rfl rfl
  | lost =>
    obtain ⟨d, hd⟩ := hmeets
    exact Or.inr ⟨_, _, _, rfl, haccepted hd, hlogged.asked component kind s.text 0 _ _ d⟩
  | answered r =>
    obtain ⟨d, hd⟩ := hmeets
    exact Or.inr ⟨_, _, _, rfl, haccepted hd, hlogged.asked component kind s.text 0 _ _ d⟩

/-- **A component that learns what became of its request** does what the interpretation does. -/
theorem follows_hear (h : Akin i n a₀ e₀ a e) (component : Nat) (kind : RequestKind)
    (assigns : Bool) (body : List UInt8) {s : ScpiProgress} {t : Nat} (hp : s.pending = some t)
    {x : Reaction}
    (ho : e.ledger.outcome? t = some x.outcome) :
    Follows (Refuses e₀) (Akin i n a₀ e₀)
      (hear i component kind assigns body s.text x >>= fun consumed =>
        pure (Walk.onward ⟨s.cursor + 1 + consumed, "", none⟩))
      (runVerb i component kind assigns body s) a e := by
  unfold Follows runVerb
  cases x with
  | refused _ | lost =>
    rw [bind_of_error (transact_closed hp ho)]
    exact Or.inr (.error h)
  | answered r =>
    rw [bind_of_ok (transact_answered hp ho)]
    generalize he : ({ e with ledger := e.ledger.replace t .closed }.record
      (.collected i component t r) : Engine) = e₁
    have h₁ : Akin i n a₀ e₀ a e₁ := by
      rw [← he]
      exact h.unseen rfl rfl [.collected i component t r] rfl rfl
    have hgoes {a e : Engine} (h : Akin i n a₀ e₀ a e) :
        Follows (Refuses e₀) (Akin i n a₀ e₀)
          ((if assigns then assignAnswer i component body r.text else pure 0) >>= fun consumed =>
            pure (Walk.onward ⟨s.cursor + 1 + consumed, "", none⟩))
          (do
            let consumed ← if assigns then assignAnswer i component body r.text else pure 0
            return Walk.onward ⟨s.cursor + 1 + consumed, "", none⟩) a e := by
      split
      · exact follows_bind (follows_assignAnswer h i component body r.text)
          (fun _ _ _ h => follows_pure h) fun _ _ hfull => hfull
      · exact follows_pure h
    have htext : a.host.scpiText r.error = e₁.host.scpiText r.error := by
      show a.host.memory.scpiText r.error = e₁.host.memory.scpiText r.error
      rw [h₁.host]
    show Follows (Refuses e₀) (Akin i n a₀ e₀) _ _ a e₁
    unfold hear
    dsimp only
    split
    · show Follows _ _ (throw (FlowError.instrument r.error (a.host.scpiText r.error) s.text))
        (throw (FlowError.instrument r.error (e₁.host.scpiText r.error) s.text)) a e₁
      rw [htext]
      exact follows_throw h₁
    · split
      · rw [bind_assoc]
        exact follows_modify_bind
          (hgoes (h₁.record (.logged i component (.result r.text)) rfl))
      · exact hgoes h₁

end

/-! ## 3. Parts up to the next wait -/

/-- At an offset of the payload there is a verb. -/
def AtVerb (payload : List UInt8) (offset : Nat) (kind : RequestKind) (assigns : Bool) : Prop :=
  ∃ head, readHead payload offset = .ok head ∧ head.verb? = some (kind, assigns)

/-- **Where a run through parts stops** that began at an offset after `n` requests, and where the
    interpretation is by then: both fail, or both have the last pulse before them, or the component
    waits and the interpretation has the answer before it. -/
def Stops (i : InstanceId) (component flow : Nat) (payload : List UInt8) (reaction : Nat → Reaction)
    (offset n : Nat) (a₀ e₀ : Engine) (told : EStateM.Result FlowError Engine Unit) :
    EStateM.Result FlowError Engine (Option ScpiProgress) → Prop
  | .error err e => ∃ a, told = .error err a ∧ Akin i 0 a₀ e₀ a e
  | .ok none e => ∃ a, told = pulse i component a ∧ Akin i 0 a₀ e₀ a e
  | .ok (some s) e => ∃ t kind assigns a, s.pending = some t ∧ offset ≤ s.cursor
      ∧ AtVerb payload s.cursor kind assigns
      ∧ told = interpretAnswer i component flow payload reaction kind assigns s.cursor s.text n
        (a.standBy i component)
      ∧ Akin i 1 a₀ e₀ a e

section

variable {i : InstanceId} {component flow : Nat} {payload : List UInt8}
  {reaction : Nat → Reaction} {offset n : Nat} {a₀ e₀ a e : Engine}

theorem runPart_verb {kind : RequestKind} {assigns : Bool} {s : ScpiProgress}
    (h : AtVerb payload s.cursor kind assigns) :
    runPart i component flow payload s
      = runVerb i component kind assigns (payload.drop (s.cursor + 1)) s := by
  obtain ⟨head, hr, hv⟩ := h
  unfold runPart
  rw [hr]
  cases head with
  | queryAssign | query | command =>
    obtain ⟨rfl, rfl⟩ := Prod.mk.inj (Option.some.inj hv)
    rfl
  | text s size | expression | finish => cases hv

/-- At a verb the component sends its request and waits. -/
theorem stops_verb (h : Akin i 0 a₀ e₀ a e) (hd : Meets (reaction n) e₀.dispatcher)
    {s : ScpiProgress} (hp : s.pending = none) (hle : offset ≤ s.cursor) {kind : RequestKind}
    {assigns : Bool} (hv : AtVerb payload s.cursor kind assigns) (more : Nat) :
    Stops i component flow payload reaction offset n a₀ e₀
      (interpret i component flow payload reaction s.cursor s.text n a)
      (runParts i component flow payload (more + 1) s e) := by
  obtain ⟨head, hr, hhead⟩ := hv
  unfold runParts
  rw [interpret_verb hr hhead, runPart_verb ⟨head, hr, hhead⟩]
  rcases transact_asks h component kind hp hd with
    ⟨err, a', e', hask, htransact, h'⟩ | ⟨t, a', e', hask, htransact, h'⟩
  · have hverb : runVerb i component kind assigns (payload.drop (s.cursor + 1)) s e
        = .error err e' := bind_of_error htransact
    rw [bind_of_error hask, bind_of_error hverb]
    exact ⟨a', rfl, h'⟩
  · have hverb : runVerb i component kind assigns (payload.drop (s.cursor + 1)) s e
        = .ok (.waiting { s with pending := some t }) e' := bind_of_ok htransact
    rw [bind_of_ok hask, bind_of_ok hverb]
    exact ⟨t, kind, assigns, a', rfl, hle, ⟨head, hr, hhead⟩, rfl, h'⟩

/-- **Parts up to the next wait** of a component that does not wait: it does what the interpretation
    does. The count of parts never runs out. -/
theorem stops_runParts (h : Akin i 0 a₀ e₀ a e) (hd : Meets (reaction n) e₀.dispatcher)
    {more : Nat} {s : ScpiProgress} (hp : s.pending = none) (hle : offset ≤ s.cursor)
    (hmore : payload.length < s.cursor + more) :
    Stops i component flow payload reaction offset n a₀ e₀
      (interpret i component flow payload reaction s.cursor s.text n a)
      (runParts i component flow payload more s e) := by
  induction more generalizing s a e with
  | zero =>
    have hend : payload.length ≤ s.cursor := Nat.le_of_lt hmore
    rw [interpret_error (readHead_of_le hend)]
    exact ⟨a, rfl, h⟩
  | succ more ih =>
    cases hr : readHead payload s.cursor with
    | error defect =>
      have hpart : runPart i component flow payload s
          = throw (.malformedComponent flow component defect) := by
        unfold runPart
        rw [hr]
      unfold runParts
      rw [interpret_error hr, hpart]
      exact ⟨a, rfl, h⟩
    | ok head =>
      cases head with
      | queryAssign => exact stops_verb h hd hp hle ⟨_, hr, rfl⟩ more
      | query => exact stops_verb h hd hp hle ⟨_, hr, rfl⟩ more
      | command => exact stops_verb h hd hp hle ⟨_, hr, rfl⟩ more
      | finish =>
        have hpart : runPart i component flow payload s = pure .finished := by
          unfold runPart
          rw [hr]
        unfold runParts
        rw [interpret_finish hr, hpart]
        exact ⟨a, rfl, h⟩
      | text text size =>
        have hpart : runPart i component flow payload s = pure (.onward
            { s with cursor := s.cursor + 1 + size, text := s.text ++ text }) := by
          unfold runPart
          rw [hr]
        unfold runParts
        rw [interpret_text hr, hpart]
        exact ih h hp (by dsimp only; omega) (by dsimp only; omega)
      | expression =>
        have hpart : runPart i component flow payload s
            = (evaluateIn .scpiExpression i (payload.drop (s.cursor + 1)) [] false >>= fun r =>
              textOf r.1 >>= fun text => pure (.onward
                { s with cursor := s.cursor + 1 + r.2, text := s.text ++ text })) := by
          unfold runPart
          rw [hr]
        unfold runParts
        rw [interpret_expression hr, hpart, bind_assoc]
        refine Pairs.bind (Follows.pairs (follows_evaluateIn h _ i _ [] false))
          (fun r a e h => ?_) fun err a e h => ⟨a, rfl, h⟩
        rw [bind_assoc]
        refine Pairs.bind (Follows.pairs (follows_textOf h r.1))
          (fun text a e h => ?_) fun err a e h => ⟨a, rfl, h⟩
        exact ih h hp (by dsimp only; omega) (by dsimp only; omega)

/-- **Parts after an answer**, up to the next wait. -/
theorem stops_heard (h : Akin i 0 a₀ e₀ a e) (hd : Meets (reaction (n + 1)) e₀.dispatcher)
    {more : Nat} {s : ScpiProgress} {t : Nat} (hp : s.pending = some t)
    (ho : e.ledger.outcome? t = some (reaction n).outcome)
    (hmore : payload.length < s.cursor + 1 + more) {kind : RequestKind} {assigns : Bool}
    (hv : AtVerb payload s.cursor kind assigns) :
    Refuses e₀ (stateAfter (runParts i component flow payload (more + 1) s e))
    ∨ Stops i component flow payload reaction (s.cursor + 1) (n + 1) a₀ e₀
      (interpretAnswer i component flow payload reaction kind assigns s.cursor s.text n a)
      (runParts i component flow payload (more + 1) s e) := by
  have hhear := follows_hear h component kind assigns
    (payload.drop (s.cursor + 1)) hp ho
  unfold runParts
  rw [runPart_verb hv]
  rcases hhear with hfull | hpairs
  · left
    refine excuse_bind hfull fun w e' hfull => ?_
    split
    · exact hfull.grow (grows_runParts List.suffix_rfl flow payload more _).after
    · exact hfull
    · exact hfull
  · right
    generalize hverb : runVerb i component kind assigns (payload.drop (s.cursor + 1)) s e = heard
      at hpairs
    unfold interpretAnswer
    cases hh : hear i component kind assigns (payload.drop (s.cursor + 1)) s.text (reaction n) a
      with
    | ok consumed a' =>
      rw [bind_of_ok hh] at hpairs ⊢
      generalize hwalk : (pure (Walk.onward ⟨s.cursor + 1 + consumed, "", none⟩) : Act Walk) a'
        = walk at hpairs
      cases hpairs with
      | ok h =>
        obtain ⟨rfl, rfl⟩ := EStateM.Result.ok.inj hwalk
        rw [bind_of_ok hverb]
        refine stops_runParts (s := ⟨s.cursor + 1 + consumed, "", none⟩) h hd rfl ?_ ?_
        · dsimp only; omega
        · dsimp only; omega
      | error h => cases hwalk
    | error err a' =>
      rw [bind_of_error hh] at hpairs ⊢
      cases hpairs with
      | error h =>
        rw [bind_of_error hverb]
        exact ⟨a', rfl, h⟩

end

end InstrumentFlow.Engine
