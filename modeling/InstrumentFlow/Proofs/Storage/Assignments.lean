import InstrumentFlow.Proofs.Storage.Activities

/-!
# Assignments, errors and requests as deposits

* `handles_coerced` -- a value in the kind of the one that it replaces;
* `handles_assign` -- a value to a write target: where the target leads somewhere it can be written;
* `deposits_settleProgress` -- progress of all kinds, that of loops included;
* `deposits_raiseError` -- an error on its way;
* `handles_runParts` -- the parts of a payload with their requests.
-/

namespace InstrumentFlow.Engine

open Expression (Points Operand points_of_noPlaces)

section

variable {T : Terms} {e e' : Engine} {i : InstanceId}

/-! ## 1. Assignments -/

/-- **A coerced value replaces the one before**, unless there was a breakdown. -/
theorem handles_coerced (prior : Value) {v : Value} (hv : Fair T e.heap v) :
    Handles T i (fun w e' => e'.forest = e.forest ∧ e'.globals = e.globals ∧ e'.heap = e.heap
      ∧ Fair T e'.heap w ∧ (e'.breakdown = none → prior.Replaces w)) (coerced prior v) e := by
  unfold coerced
  refine handles_get ?_
  split
  · next w hw => exact handles_pure ⟨rfl, rfl, rfl, coerce_fair hv hw, fun _ => coerce_replaces hw⟩
  · next hnone =>
    have hendless : e.heap.Endless := by
      unfold coerce at hnone
      split at hnone
      case h_4 => exact ⟨v, v, Or.inl (Option.map_eq_none_iff.mp hnone)⟩
      all_goals cases hnone
    have hbreak : Deposits T True e (e.breakDown .endlessArray) :=
      deposits_breakDown fun _ => hendless
    have hbroken : (e.breakDown .endlessArray).breakdown ≠ none := by
      unfold breakDown
      cases e.breakdown <;> exact Option.some_ne_none _
    exact yields_set_bind ⟨hbreak, rfl, rfl, rfl, hv, fun h => absurd h hbroken⟩

theorem handles_writeNative (hs : e.Stock T) (id : UInt32) {v : Value} (hv : Fair T e.heap v) :
    Handles T i (fun _ _ => True) (writeNative id v) e := by
  have hnote : Deposits T True e (if e.host.listens then
      e.record (.nativeWritten id (e.heap.image v)) else e) := by
    split
    · exact deposits_record rfl
    · exact .refl
  unfold writeNative
  refine handles_get ?_
  generalize (if e.host.listens then
    e.record (.nativeWritten id (e.heap.image v)) else e) = e₁ at hnote ⊢
  dsimp only
  have hnatives := (hnote.stock hs).natives
  split
  · exact handles_set (hnote.tail (.native (hnatives.write id (hnote.fair hv)))) trivial
  · next refusal hrefusal =>
    refine handles_set_bind hs hnote fun _ => handles_throw fun hn _ => ?_
    exact Host.isStale_refusal hnatives hn hrefusal

/-- **An assignment** to a target that leads somewhere can be made. -/
theorem handles_assign (hs : e.Stock T) (i : InstanceId) (component : Nat)
    {destination value : Value}
    (hd : T.barred destination → Points e.scope i e.heap destination)
    (hv : Fair T e.heap value) :
    Handles T i (fun _ _ => True) (assign i component destination value) e := by
  have hread := handles_resolved (i := i) hs .readAssigned
    fun hb => absurd hb hv.allowed
  unfold assign
  refine handles_bind hs hread fun v e₁ _ hs hv' => ?_
  obtain ⟨rfl, hfair⟩ := hv'
  have hv := hfair hv.known
  split
  · exact handles_propagate hs i component _ hv
  · exact handles_writeNative hs _ hv
  · next a index =>
    refine handles_get ?_
    split
    · next hnone =>
      refine handles_throw fun hn _ => ?_
      have hlt : index < (e₁.heap.elements a).size := points_of_noPlaces hn hd
      exact absurd hlt (Nat.not_lt_of_le (Array.getElem?_eq_none_iff.mp hnone))
    · next prior hprior =>
      refine handles_bind hs (handles_coerced prior hv) fun w e₂ _ _ hw => ?_
      obtain ⟨_, _, hheap, hfair, _⟩ := hw
      exact handles_modify (.single (.assignElement (hheap.symm ▸ hprior) hfair)) trivial
  · next target slot =>
    refine handles_get ?_
    split
    · next hnone =>
      refine handles_throw fun hn _ => ?_
      obtain ⟨rfl, slots, hslots, _⟩ := points_of_noPlaces hn hd
      obtain ⟨s, hs, _⟩ := Option.map_eq_some_iff.mp hslots
      rw [hs] at hnone
      cases hnone
    next s hi =>
    have hpoints (hb : T.barred (.slot target slot)) :
        s.inputCount ≤ slot ∧ slot < s.values.size := by
      obtain ⟨rfl, slots, hslots, hle, hlt⟩ := hd hb
      obtain ⟨s', hi', rfl⟩ := Option.map_eq_some_iff.mp hslots
      rw [hi] at hi'
      cases hi'
      exact ⟨hle, hlt⟩
    split
    · next hnone =>
      refine handles_throw fun hn _ => ?_
      exact absurd (hpoints (hn _ nofun)).2 (Nat.not_lt_of_le (Array.getElem?_eq_none_iff.mp hnone))
    · next prior hprior =>
      refine handles_bind hs (handles_coerced prior hv) fun w e₂ _ _ hw => ?_
      obtain ⟨hforest, _, _, hfair, hkind⟩ := hw
      have hi₂ : e₂.instance? target = some s := by
        unfold instance? at hi ⊢
        rwa [hforest]
      exact handles_modify (.single (.assignSlot hi₂ hprior (fun hb => (hpoints hb).1) hkind hfair))
        trivial
  · next index =>
    refine handles_get ?_
    split
    · next hnone =>
      refine handles_throw fun hn _ => ?_
      have hlt : index < e₁.globals.size := points_of_noPlaces hn hd
      exact absurd hlt (Nat.not_lt_of_le (Array.getElem?_eq_none_iff.mp hnone))
    · next prior hprior =>
      refine handles_bind hs (handles_coerced prior hv) fun w e₂ _ _ hw => ?_
      obtain ⟨_, hglobals, _, hfair, hkind⟩ := hw
      exact handles_modify (.single (.assignGlobal (hglobals.symm ▸ hprior) hkind hfair)) trivial
  · exact handles_throw fun _ _ => rfl

/-! ## 2. Progress -/

/-- The progress, if it is that of a loop, has its variable. -/
def LoopsTo (e : Engine) (T : Terms) (i : InstanceId) (p : Option Progress) : Prop :=
  ∀ l, p = some (.loop l) → Leads T e i l.destination

theorem deposits_settleProgress {p : Option Progress} (hp : e.LoopsTo T i p) (component : Nat)
    (hadProgress : Bool) :
    Deposits T True e (e.settleProgress i component hadProgress p) := by
  by_cases hl : ∃ l, p = some (.loop l)
  · obtain ⟨l, rfl⟩ := hl
    have hset : Deposits T True e (e.setProgress i component (some (.loop l))) :=
      .single (.loop (hp l rfl))
    unfold settleProgress
    split
    · dsimp only
      split
      · exact hset.trans (deposits_record rfl)
      · exact hset
    · exact .refl
  · exact (quiet_settleProgress e i component hadProgress fun l h => hl ⟨l, h⟩).deposits

theorem handles_checkIn {p : Option Progress} (hp : e.LoopsTo T i p) (component : Nat)
    (hadProgress : Bool) :
    Handles T i (fun _ _ => True) (checkIn i component hadProgress p) e :=
  handles_modify (deposits_settleProgress hp component hadProgress) trivial

theorem loopsTo_of_ne {p : Option Progress} (hp : ∀ l, p ≠ some (.loop l)) : e.LoopsTo T i p :=
  fun l hl => absurd hl (hp l)

/-- The progress of a component is taken away; a loop that goes on has its variable. -/
theorem handles_checkOut (hs : e.Stock T) (i : InstanceId) (component : Nat) :
    Handles T i (fun p e' => e'.LoopsTo T i p ∧ (p ≠ none → e'.instance? i ≠ none))
      (checkOut i component) e := by
  have hout : Deposits T True e (e.setProgress i component none) :=
    (quiet_setProgress e i component fun l => (Option.some_ne_none _).symm).deposits
  have hlive (p : Progress) (hp : e.progress? i component = some p) : e.instance? i ≠ none := by
    obtain ⟨s, hi, _⟩ := Option.bind_eq_some_iff.mp hp
    exact Option.ne_none_iff_exists'.mpr ⟨s, hi⟩
  unfold checkOut
  refine handles_get (yields_set_bind ⟨hout, fun l hl => ?_, fun hp => ?_⟩)
  · obtain ⟨s, hi, hp⟩ := Option.bind_eq_some_iff.mp hl
    unfold Instance.progress? at hp
    have hmem : some (.loop l) ∈ s.progress := Array.mem_of_getElem? (Option.join_eq_some_iff.mp hp)
    exact hout.leads (hlive _ hl) (hs.loops i s hi l hmem)
  · obtain ⟨p, hp⟩ := Option.ne_none_iff_exists'.mp hp
    exact hout.live (hlive p hp)

/-! ## 3. Errors -/

theorem deposits_sendError (hs : e.Stock T) (i : InstanceId) (component output : Nat)
    (message : String) : Deposits T True e (e.sendError i component output message) := by
  have hpropagate : Handles T i (fun _ _ => True)
      (propagate i component output (.string message)) e :=
    handles_propagate hs i component output (fair_of_bare ⟨rfl, rfl⟩)
  unfold sendError
  split
  · next he => exact (hpropagate.of_ok he).1
  · next he =>
    exact (hpropagate.of_error he).1.trans (quiet_failFatally _ i component _).deposits

/-- **An error on its way** is a row of deposits. -/
theorem deposits_raiseError (hs : e.Stock T) (i : InstanceId) (component : Nat)
    (message : String) : Deposits T True e (e.raiseError i component message) := by
  unfold raiseError
  split
  · exact .refl
  split
  · exact (quiet_failFatally e i component message).deposits
  split
  · exact deposits_sendError hs i component _ message
  dsimp only
  split
  · exact (quiet_failFatally e i component message).deposits
  · exact (quiet_routeError e i component _ _ message).deposits

/-! ## 4. Requests -/

/-- Requests are sent, served, answered or lost. -/
theorem quiet_request {staying : Prop} (e : Engine) (ledger : Scpi.Ledger)
    (dispatcher : Dispatcher) : Quiet staying e { e with ledger, dispatcher } :=
  .beside rfl rfl rfl rfl rfl rfl rfl

theorem handles_dispatch (component : Nat) (kind : Scpi.RequestKind) (text : String) :
    Handles T i (fun _ _ => True) (dispatch i component kind text) e := by
  unfold dispatch
  refine handles_get ?_
  dsimp only
  split
  · exact yields_set_bind
      ⟨(quiet_request e _ _).deposits.trans (deposits_record rfl), trivial⟩
  · exact yields_set_bind ⟨(quiet_request e _ e.dispatcher).deposits, fun _ _ => rfl⟩

theorem handles_transact (hs : e.Stock T) (component : Nat) (kind : Scpi.RequestKind)
    (s : ScpiProgress) : Handles T i (fun _ _ => True) (transact i component kind s) e := by
  have hpoll (ledger : Scpi.Ledger) : Deposits T True e { e with ledger } :=
    (quiet_request e ledger e.dispatcher).deposits
  unfold transact
  split
  · refine handles_modify_bind hs (deposits_record rfl) fun hs => ?_
    exact handles_bind hs (handles_dispatch component kind s.text) fun _ _ _ _ _ =>
      handles_pure trivial
  · next transaction _ =>
    refine handles_get ?_
    dsimp only
    split
    · next err he =>
      refine yields_set_bind ⟨hpoll _, fun _ _ => ?_⟩
      unfold Scpi.Ledger.poll at he
      split at he <;> cases he
      rfl
    · exact yields_set_bind ⟨hpoll _, trivial⟩
    · exact yields_set_bind ⟨(hpoll _).trans (deposits_record rfl), trivial⟩

theorem handles_assignAnswer (hs : e.Stock T) (component : Nat) (body : List UInt8)
    (answer : String) :
    Handles T i (fun _ _ => True) (assignAnswer i component body answer) e := by
  unfold assignAnswer
  refine handles_bind hs (handles_evaluateIn hs rfl i body [] true) fun r e _ hs hr => ?_
  have hbare := fair_of_bare (T := T) (h := e.heap) (Scpi.answerValue_bare answer)
  exact handles_bind hs (handles_assign hs i component hr.points hbare) fun _ _ _ _ _ =>
    handles_pure trivial

theorem handles_runVerb (hs : e.Stock T) (component : Nat) (kind : Scpi.RequestKind)
    (assigns : Bool) (body : List UInt8) (s : ScpiProgress) :
    Handles T i (fun _ _ => True) (runVerb i component kind assigns body s) e := by
  unfold runVerb
  refine handles_bind hs (handles_transact hs component kind s) fun r e _ hs _ => ?_
  dsimp only
  split
  · exact handles_pure trivial
  next response _ =>
  have hend {e : Engine} (hs : e.Stock T) (s : ScpiProgress) :
      Handles T i (fun _ _ => True)
        (do
          let consumed ← if assigns then assignAnswer i component body response.text else pure 0
          return Walk.onward { s with cursor := s.cursor + 1 + consumed, text := "" }) e := by
    split
    · exact handles_bind hs (handles_assignAnswer hs component body _) fun _ _ _ _ _ =>
        handles_pure trivial
    · exact handles_pure trivial
  split
  · exact handles_get (handles_throw fun _ _ => rfl)
  · split
    · exact handles_modify_bind hs (deposits_record rfl) fun hs => hend hs _
    · exact hend hs _

theorem handles_runPart (hs : e.Stock T) (component flow : Nat) (payload : List UInt8)
    (s : ScpiProgress) :
    Handles T i (fun _ _ => True) (runPart i component flow payload s) e := by
  unfold runPart
  dsimp only
  split
  · exact handles_throw fun _ _ => rfl
  · exact handles_pure trivial
  · refine handles_bind hs (handles_evaluateIn hs rfl i _ [] false) fun r e _ hs _ => ?_
    exact handles_bind hs (handles_textOf hs _) fun _ _ _ _ _ => handles_pure trivial
  · exact handles_runVerb hs component _ _ _ s
  · exact handles_runVerb hs component _ _ _ s
  · exact handles_runVerb hs component _ _ _ s
  · exact handles_pure trivial

/-- **Parts up to the next wait** are a row of deposits. -/
theorem handles_runParts (hs : e.Stock T) (component flow : Nat) (payload : List UInt8)
    (more : Nat) (s : ScpiProgress) :
    Handles T i (fun _ _ => True) (runParts i component flow payload more s) e := by
  induction more generalizing e s with
  | zero => exact handles_throw fun _ _ => rfl
  | succ more ih =>
    unfold runParts
    refine handles_bind hs (handles_runPart hs component flow payload s) fun w e _ hs _ => ?_
    split
    · exact ih hs _
    · exact handles_pure trivial
    · exact handles_pure trivial

end

end InstrumentFlow.Engine
