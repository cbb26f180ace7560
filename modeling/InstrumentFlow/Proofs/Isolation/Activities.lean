import InstrumentFlow.Proofs.Storage.Steps

/-!
# Slots that are left alone

What an activity does in the name of an instance it does to the slots of that instance: no other
slot holds anything else afterwards, but for those that the connections of its component lead to.
Only a write target that the host handed in can lead an assignment elsewhere.

* `Instance.SameAt` -- a slot holds what it held;
* `Event.assigns`, `Respects` -- it does, unless it was assigned and the host may hand in places;
* `Bypasses`, `Bypasses.bind`, ... -- an activity leaves a slot alone, and one rule for each way to
  put such activities together;
* `Engine.Wired` -- the slots that the connections of a component lead to;
* `bypasses_propagate` -- a value that is sent out comes to no other slots;
* `Value.Stays`, `bypasses_assign` -- an assignment to a write target of the own instance;
* `Respects.raiseError` -- an error on its way;
* `bypasses_runParts` -- the parts of a payload with their requests.
-/

namespace InstrumentFlow

open Expression (Points)

/-- **The slot holds what it held**, and lies where it lay. -/
structure Instance.SameAt (n : Nat) (s s' : Instance) : Prop where
  inputCount_eq : s'.inputCount = s.inputCount
  value_eq : s'.values[n]? = s.values[n]?

theorem Instance.SameAt.input? {n : Nat} {s s' : Instance} (h : s.SameAt n s') :
    s'.input? n = s.input? n := by
  unfold Instance.input?
  rw [h.inputCount_eq, h.value_eq]

theorem Instance.SameAt.local? {n : Nat} {s s' : Instance} (h : s.SameAt (s.inputCount + n) s') :
    s'.local? n = s.local? n := by
  unfold Instance.local?
  rw [h.inputCount_eq, h.value_eq]

/-- The write target leads to no slot but those of the instance. -/
def Value.Stays (i : InstanceId) (v : Value) : Prop := ∀ j n, v = .slot j n → j = i

theorem Expression.Points.stays {scope : Expression.Scope} {i : InstanceId} {h : Heap} {v : Value}
    (hv : Points scope i h v) : v.Stays i := by
  rintro j n rfl
  exact hv.1

/-- Whether the event tells of an assignment to the slot, by a write target that leads there. -/
def Event.assigns (j : InstanceId) (n : Nat) : Event → Bool
  | assigned (.slot i m) _ _ => i = j ∧ m = n
  | _ => false

namespace Engine

/-! ## 1. States -/

/-- **A slot is left alone**: whoever has the handle of its instance afterwards had it before, and
    the slot holds what it held. Only where the host may hand in places it can be assigned. -/
def Respects (T : Terms) (j : InstanceId) (n : Nat) (e e' : Engine) : Prop :=
  ∃ news, e'.chronicle = news ++ e.chronicle
    ∧ ((¬ T.noPlaces ∧ news.any (Event.assigns j n) = true)
      ∨ ∀ s', e'.instance? j = some s' → ∃ s, e.instance? j = some s ∧ s.SameAt n s')

namespace Respects

variable {T : Terms} {j : InstanceId} {n : Nat} {e e' e'' : Engine}

/-- Nothing is assigned, and the slot holds what it held. -/
theorem of_same (hc : e'.chronicle = e.chronicle)
    (hs : ∀ s', e'.instance? j = some s' → ∃ s, e.instance? j = some s ∧ s.SameAt n s') :
    Respects T j n e e' := ⟨[], hc, Or.inr hs⟩

/-- A change beside the instances, of which nobody is told. -/
theorem beside (hf : e'.forest = e.forest) (hj : e'.journal = e.journal) :
    Respects T j n e e' := by
  refine of_same (congrArg (List.filter _) hj) fun s' hs' => ⟨s', ?_, rfl, rfl⟩
  unfold instance? at hs' ⊢
  rwa [← hf]

theorem refl (e : Engine) : Respects T j n e e := beside rfl rfl

theorem trans (h : Respects T j n e e') (h' : Respects T j n e' e'') : Respects T j n e e'' := by
  obtain ⟨news, hc, h⟩ := h
  obtain ⟨news', hc', h'⟩ := h'
  refine ⟨news' ++ news, by rw [hc', hc, List.append_assoc], ?_⟩
  rw [List.any_append, Bool.or_eq_true]
  rcases h with ⟨hp, hassigned⟩ | h
  · exact Or.inl ⟨hp, Or.inr hassigned⟩
  rcases h' with ⟨hp, hassigned⟩ | h'
  · exact Or.inl ⟨hp, Or.inl hassigned⟩
  refine Or.inr fun s'' hs'' => ?_
  obtain ⟨s', hs', hsame'⟩ := h' s'' hs''
  obtain ⟨s, hs, hsame⟩ := h s' hs'
  exact ⟨s, hs, hsame'.inputCount_eq.trans hsame.inputCount_eq,
    hsame'.value_eq.trans hsame.value_eq⟩

/-- Where the news tell of no assignment to the slot it holds what it held. -/
theorem sameAt (h : Respects T j n e e') {s s' : Instance} (hs : e.instance? j = some s)
    (hs' : e'.instance? j = some s') {news : List Event} (hj : e'.journal = news ++ e.journal)
    (hx : ¬ (¬ T.noPlaces ∧ news.any (Event.assigns j n) = true)) : s.SameAt n s' := by
  obtain ⟨told, hc, h⟩ := h
  obtain rfl : told = news.filter Event.isStorage := by
    refine List.append_cancel_right (hc.symm.trans ?_)
    unfold chronicle
    rw [hj, List.filter_append]
  rcases h with ⟨hp, hassigned⟩ | h
  · obtain ⟨event, hmem, hassigns⟩ := List.any_eq_true.mp hassigned
    exact absurd ⟨hp, List.any_eq_true.mpr ⟨event, (List.mem_filter.mp hmem).1, hassigns⟩⟩ hx
  · obtain ⟨s₁, hs₁, hat⟩ := h s' hs'
    cases hs.symm.trans hs₁
    exact hat

/-- Nothing comes into any slot. -/
theorem of_quiet (h : Quiet False e e') : Respects T j n e e' := by
  refine of_same h.chronicle fun s' hs' => ?_
  obtain ⟨s, hs, hheld⟩ := h.back j s' hs'
  exact ⟨s, hs, hheld.inputCount_eq, by rw [hheld.values_eq]⟩

theorem record (e : Engine) {event : Event} (h : event.isStorage = false) :
    Respects T j n e (e.record event) := of_quiet (.record e h)

theorem modifyInstance (e : Engine) (i : InstanceId) {change : Instance → Instance}
    (hc : ∀ s : Instance, j = i → s.SameAt n (change s)) :
    Respects T j n e (e.modifyInstance i change) := by
  refine of_same rfl fun s' hs' => ?_
  rw [instance?_modifyInstance] at hs'
  split at hs'
  · next hj =>
    obtain ⟨s, hs, rfl⟩ := Option.map_eq_some_iff.mp hs'
    exact ⟨s, hj ▸ hs, hc s hj⟩
  · exact ⟨s', hs', rfl, rfl⟩

/-- **Another slot is written.** -/
theorem writeSlot (e : Engine) {i : InstanceId} {slot : Nat} (h : j = i → n ≠ slot) (v : Value) :
    Respects T j n e (e.writeSlot i slot v) := by
  have hwrite : Respects T j n e (e.modifyInstance i (·.setValue slot v)) :=
    modifyInstance e i fun s hj => ⟨rfl, Array.getElem?_setIfInBounds_ne (h hj).symm⟩
  exact hwrite.trans (record _ rfl)

/-- By the announcement of an assignment nothing is written yet. -/
theorem noteAssigned (e : Engine) (destination v : Value) :
    Respects T j n e (e.noteAssigned destination v) :=
  ⟨[.assigned destination v e.heap], rfl, Or.inr fun s' hs' => ⟨s', hs', rfl, rfl⟩⟩

/-- **A slot is assigned**, another one, or the host may hand in places. -/
theorem assignSlot (e : Engine) {i : InstanceId} {slot : Nat}
    (h : T.noPlaces → j = i → n ≠ slot) (v : Value) :
    Respects T j n e ((e.noteAssigned (.slot i slot) v).writeSlot i slot v) := by
  by_cases hit : j = i ∧ n = slot
  · obtain ⟨rfl, rfl⟩ := hit
    exact ⟨[.assigned (.slot j n) v e.heap], rfl,
      Or.inl ⟨fun hn => h hn rfl rfl, by simp [Event.assigns]⟩⟩
  · exact (noteAssigned e _ v).trans (writeSlot _ (fun hj hslot => hit ⟨hj, hslot⟩) v)

theorem writeGlobal (e : Engine) (index : Nat) (v : Value) :
    Respects T j n e (e.writeGlobal index v) := by
  have hwrite : Respects T j n e { e with globals := e.globals.setIfInBounds index v } :=
    beside rfl rfl
  exact hwrite.trans (record _ rfl)

theorem writeElement (e : Engine) (a : ArrayId) (index : Nat) (v : Value) :
    Respects T j n e (e.writeElement a index v) := by
  have hwrite : Respects T j n e { e with heap := e.heap.write a index v } := beside rfl rfl
  exact hwrite.trans (record _ rfl)

theorem clearSlot (e : Engine) {i : InstanceId} {slot : Nat} (h : j = i → n ≠ slot) :
    Respects T j n e (e.clearSlot i slot) := by
  unfold Engine.clearSlot
  split
  · split
    · exact refl e
    · exact writeSlot e h .undefined
  · exact refl e

theorem resetSequenceInputs (e : Engine) {i : InstanceId} (hj : j ≠ i) (component : Nat) :
    Respects T j n e (e.resetSequenceInputs i component) := by
  unfold Engine.resetSequenceInputs
  generalize e.sequenceInputs i component = slots
  induction slots generalizing e with
  | nil => exact refl e
  | cons slot slots ih => exact (clearSlot e fun h => absurd h hj).trans (ih _)

theorem offerSlot (e : Engine) {i : InstanceId} {slot : Nat} (h : j = i → n ≠ slot)
    (held v : Value) : Respects T j n e (e.offerSlot i slot held v) := by
  have hbreak : Respects T j n e (e.breakDown .endlessArray) := beside rfl rfl
  unfold Engine.offerSlot
  split
  · exact refl e
  · exact writeSlot e h v
  · exact hbreak.trans (writeSlot _ h v)

theorem settleProgress (e : Engine) (i : InstanceId) (component : Nat) (hadProgress : Bool)
    (p : Option Progress) : Respects T j n e (e.settleProgress i component hadProgress p) := by
  have hset : Respects T j n e (e.setProgress i component p) :=
    modifyInstance e i fun _ _ => ⟨rfl, rfl⟩
  unfold Engine.settleProgress
  split
  · dsimp only
    split
    · exact hset.trans (record _ rfl)
    · exact hset
  · exact refl e

/-- The slots of those who are there already stay as they are when an instance begins. -/
theorem begun (hs : e.forest.Sound) {flow : Nat} {f : Flow} {parent : Option (InstanceId × Nat)}
    {isAction : Bool} (hp : ∀ p, parent = some p → e.forest.contains p.1 = true)
    (ha : isAction = parent.isSome) (hl : e.instance? j ≠ none) :
    Respects T j n e (e.begun flow f parent isAction) := by
  refine ⟨[@Event.created (e.nextId flow f parent isAction) flow _], rfl, Or.inr fun s' hs' => ?_⟩
  rcases instance?_begun_cases hs hp ha hs' with ⟨rfl, -⟩ | ⟨-, s, children, hi, rfl⟩
  · exact absurd (nextId_fresh hs.free flow f parent isAction) hl
  · exact ⟨s, hi, rfl, rfl⟩

end Respects

/-! ## 2. Activities -/

/-- **An activity leaves a slot alone.** -/
def Bypasses {α : Type} (T : Terms) (j : InstanceId) (n : Nat) (a : Act α) (e : Engine) : Prop :=
  Upholds (Respects T j n e) (fun _ _ => True) a e

namespace Bypasses

variable {α β : Type} {T : Terms} {j : InstanceId} {n : Nat} {e e' : Engine}

theorem pure (r : α) : Bypasses T j n (Pure.pure r) e := upholds_pure (.refl e) trivial

theorem throw (err : FlowError) : Bypasses T j n (MonadExcept.throw err : Act α) e :=
  upholds_throw (.refl e)

theorem get {f : Engine → Act β} (h : Bypasses T j n (f e) e) :
    Bypasses T j n (MonadState.get >>= f) e := h

/-- An activity goes on from a state in which the slot holds what it held. -/
theorem after {a : Act α} (ha : Bypasses T j n a e') (h : Respects T j n e e') :
    Upholds (Respects T j n e) (fun _ _ => True) a e' :=
  Upholds.mono ha (fun _ h' => h.trans h') fun _ _ _ _ => trivial

/-- What the first part of an activity is known to do, the second part can rely on. -/
theorem bind {a : Act α} {f : α → Act β} (ha : Bypasses T j n a e)
    (hf : ∀ r e', a e = .ok r e' → Bypasses T j n (f r) e') : Bypasses T j n (a >>= f) e :=
  upholds_bind_within (R := fun r e' => Respects T j n e e' ∧ Bypasses T j n (f r) e')
    (fun r e' he => ⟨(Upholds.of_ok ha he).1, hf r e' he⟩) (fun _ _ he => Upholds.of_error ha he)
    fun _ _ h => h.2.after h.1

theorem set (h : Respects T j n e e') : Bypasses T j n (MonadState.set e' : Act PUnit) e :=
  upholds_set h trivial

theorem set_bind {f : PUnit → Act β} (h : Respects T j n e e') (hf : Bypasses T j n (f ⟨⟩) e') :
    Bypasses T j n (MonadState.set e' >>= f) e := upholds_set_bind (hf.after h)

theorem modify {g : Engine → Engine} (h : Respects T j n e (g e)) :
    Bypasses T j n (modify g : Act PUnit) e := upholds_modify h trivial

end Bypasses

theorem bypasses_modify_bind {β : Type} {T : Terms} {j : InstanceId} {n : Nat} {e : Engine}
    {g : Engine → Engine} {f : PUnit → Act β} (h : Respects T j n e (g e))
    (hf : Bypasses T j n (f ⟨⟩) (g e)) : Bypasses T j n (modify g >>= f) e :=
  upholds_modify_bind (hf.after h)

section

variable {T : Terms} {i j : InstanceId} {n : Nat} {e : Engine}

/-! ## 3. Evaluation -/

theorem bypasses_resolved (activity : Activity) (v : Value) :
    Bypasses T j n (resolved activity v) e := by
  unfold resolved
  refine .get ?_
  split
  · exact .pure _
  · exact .throw _

theorem bypasses_textOf (v : Value) : Bypasses T j n (textOf v) e := by
  unfold textOf
  refine .get ?_
  split
  · exact .pure _
  · exact .set_bind (.beside rfl rfl) (.pure _)

theorem bypasses_evaluateIn (activity : Activity) (i : InstanceId) (code : List UInt8)
    (iterators : List Int32) (target : Bool) :
    Bypasses T j n (evaluateIn activity i code iterators target) e := by
  have hrun : Respects T j n e (runStream i code iterators target e).2 := by
    unfold runStream
    dsimp only
    split
    · exact .beside rfl rfl
    · dsimp only
      split <;> exact .beside rfl rfl
  unfold evaluateIn
  refine .get (.set_bind hrun ?_)
  split
  · exact .pure _
  · exact .throw _

theorem bypasses_evaluateProperty (i : InstanceId) (component property : Nat)
    (iterators : List Int32) (target : Bool) :
    Bypasses T j n (evaluateProperty i component property iterators target) e := by
  unfold evaluateProperty
  refine .get ?_
  split
  · exact .throw _
  split
  · exact .throw _
  split
  · exact .throw _
  · exact .bind (bypasses_evaluateIn _ i _ iterators target) fun _ _ _ => .pure _

/-- What a stream finds as a write target leads to no other instance. -/
theorem Finds.stays {v : Value} (h : e.Finds T i true v) (hn : T.noPlaces) : v.Stays i :=
  (Expression.points_of_noPlaces hn (Leads.points h)).stays

/-! ## 4. Values on their way -/

/-- **A connection of the component leads to the slot.** -/
def Wired (e : Engine) (i : InstanceId) (component n : Nat) : Prop :=
  ∃ c, e.componentOf? i component = some c
    ∧ ∃ out ∈ c.outputs, ∃ w ∈ out.connections, w.targetInput.toNat = n

theorem bypasses_deliver {w : Connection} (h : j = i → n ≠ w.targetInput.toNat) (v : Value) :
    Bypasses T j n (deliver i v w) e := by
  unfold deliver
  refine .get ?_
  dsimp only
  split
  · exact .throw _
  split
  · exact .pure _
  next held _ =>
  have hoffer : Respects T j n e (e.offerSlot i w.targetInput.toNat held v) := .offerSlot e h held v
  have harrive : Respects T j n e ((e.offerSlot i w.targetInput.toNat held v).record
      (.delivered i w.targetInput.toNat w.targetComponent.toNat v)) :=
    hoffer.trans (.record _ rfl)
  have hping := harrive.trans (.of_quiet (quiet_ping _ i w.targetComponent.toNat))
  refine .set ?_
  split
  · exact hping.trans (.clearSlot _ h)
  · exact hping

theorem bypasses_deliverAll {ws : List Connection}
    (h : ∀ w ∈ ws, j = i → n ≠ w.targetInput.toNat) (v : Value) :
    Bypasses T j n (deliverAll i v ws) e := by
  induction ws generalizing e with
  | nil => exact .pure _
  | cons w ws ih =>
    refine .bind (bypasses_deliver (h w List.mem_cons_self) v) fun _ _ _ => ?_
    exact ih fun w' hw' => h w' (List.mem_cons_of_mem w hw')

/-- **A value that is sent out** comes to the slots at the ends of the connections. What else the
    component changes are its own pulses, in its own step. -/
theorem bypasses_propagate {component : Nat} (hx : e.executing = some (i, component) → j ≠ i)
    (hw : j = i → ¬ e.Wired i component n) (output : Nat) (v : Value) :
    Bypasses T j n (propagate i component output v) e := by
  unfold propagate
  refine .get ?_
  split
  · exact .pure _
  -- either the pulses of the step are used up, and the slot is that of another, or nothing is
  obtain ⟨e₁, he₁, hreset, hends⟩ : ∃ e₁, (if e.executing = some (i, component) then
      e.resetSequenceInputs i component else e) = e₁ ∧ Respects T j n e e₁
      ∧ (j = i → e₁ = e) := by
    split
    · next hrunning =>
      have hj := hx hrunning
      exact ⟨_, rfl, .resetSequenceInputs e hj component, fun h => absurd h hj⟩
    · exact ⟨_, rfl, .refl e, fun _ => rfl⟩
  rw [he₁]
  have hsent : Respects T j n e (e₁.record (.sent i component output v)) :=
    hreset.trans (.record _ rfl)
  dsimp only
  split
  · exact .set_bind hsent (.throw _)
  next s hi =>
  split
  · exact .set_bind hsent (.throw _)
  next c hc =>
  split
  · exact .set_bind hsent (.pure _)
  next out hout =>
  refine .set_bind hsent (.bind (bypasses_resolved _ v) fun u _ _ => ?_)
  refine bypasses_deliverAll (fun w hw' hj hslot => ?_) u
  obtain rfl := hends hj
  refine hw hj ⟨c, ?_, out, List.mem_of_getElem? hout, w, hw', hslot.symm⟩
  rw [componentOf?_of_live hi, hc]
  rfl

theorem bypasses_propagate_ne (hj : j ≠ i) (component output : Nat) (v : Value) :
    Bypasses T j n (propagate i component output v) e :=
  bypasses_propagate (fun _ => hj) (fun h => absurd h hj) output v

theorem bypasses_pulse_ne (hj : j ≠ i) (component : Nat) : Bypasses T j n (pulse i component) e :=
  bypasses_propagate_ne hj component _ _

/-! ## 5. Assignments -/

theorem bypasses_coerced (prior v : Value) : Bypasses T j n (coerced prior v) e := by
  unfold coerced
  refine .get ?_
  split
  · exact .pure _
  · exact .set_bind (.beside rfl rfl) (.pure _)

theorem bypasses_writeNative (id : UInt32) (v : Value) : Bypasses T j n (writeNative id v) e := by
  have htold : Respects T j n e
      (if e.host.listens then e.record (.nativeWritten id (e.heap.image v)) else e) := by
    split
    · exact .record e rfl
    · exact .refl e
  unfold writeNative
  refine .get ?_
  generalize (if e.host.listens then e.record (.nativeWritten id (e.heap.image v)) else e) = e₁
    at htold ⊢
  dsimp only
  split
  · exact .set (htold.trans (.beside rfl rfl))
  · exact .set_bind htold (.throw _)

/-- **An assignment** in the name of an instance leaves the slots of the others alone, if its
    target leads to none of them. -/
theorem bypasses_assign (hj : j ≠ i) (component : Nat) {destination : Value}
    (hd : T.noPlaces → destination.Stays i) (value : Value) :
    Bypasses T j n (assign i component destination value) e := by
  have hcoerced {e : Engine} (prior v : Value) {g : Value → Engine → Engine}
      (hg : ∀ w e, Respects T j n e (g w e)) :
      Bypasses T j n (do let w ← coerced prior v; modify (g w) : Act PUnit) e :=
    .bind (bypasses_coerced prior v) fun w _ _ => .modify (hg w _)
  unfold assign
  refine .bind (bypasses_resolved _ value) fun v _ _ => ?_
  split
  · exact bypasses_propagate_ne hj component _ v
  · exact bypasses_writeNative _ v
  · next a index =>
    refine .get ?_
    split
    · exact .throw _
    · exact hcoerced _ v fun w e => (Respects.noteAssigned e _ w).trans (.writeElement _ a index w)
  · next target slot =>
    refine .get ?_
    split
    · exact .throw _
    split
    · exact .throw _
    refine hcoerced _ v fun w e => .assignSlot e (fun hn hjt => ?_) w
    exact absurd (hjt.trans (hd hn target slot rfl)) hj
  · next index =>
    refine .get ?_
    split
    · exact .throw _
    · exact hcoerced _ v fun w e => (Respects.noteAssigned e _ w).trans (.writeGlobal _ index w)
  · exact .throw _

/-! ## 6. Progress and errors -/

theorem bypasses_checkIn (i : InstanceId) (component : Nat) (hadProgress : Bool)
    (p : Option Progress) : Bypasses T j n (checkIn i component hadProgress p) e :=
  .modify (.settleProgress e i component hadProgress p)

theorem bypasses_checkOut (i : InstanceId) (component : Nat) :
    Bypasses T j n (checkOut i component) e := by
  unfold checkOut
  exact .get (.set_bind (.modifyInstance e i fun _ _ => ⟨rfl, rfl⟩) (.pure _))

/-- **An error on its way** goes out of an output of its component, or changes no slot. -/
theorem Respects.raiseError (hj : j ≠ i) (component : Nat) (message : String) :
    Respects T j n e (e.raiseError i component message) := by
  have hfatal (e : Engine) (message : String) :
      Respects T j n e (e.failFatally i component message) :=
    .of_quiet (quiet_failFatally e i component message)
  unfold Engine.raiseError
  split
  · exact .refl e
  split
  · exact hfatal e message
  split
  · next output _ =>
    have hsend : Bypasses T j n (propagate i component output.toNat (.string message)) e :=
      bypasses_propagate_ne hj component _ _
    unfold sendError
    split
    · next he => exact (Upholds.of_ok hsend he).1
    · next he => exact (Upholds.of_error hsend he).trans (hfatal _ _)
  dsimp only
  split
  · exact hfatal e message
  · exact .of_quiet (quiet_routeError e i component _ _ message)

/-! ## 7. Requests -/

theorem bypasses_transact (i : InstanceId) (component : Nat) (kind : Scpi.RequestKind)
    (s : ScpiProgress) : Bypasses T j n (transact i component kind s) e := by
  have hdispatch {e : Engine} : Bypasses T j n (dispatch i component kind s.text) e := by
    unfold dispatch
    refine .get ?_
    dsimp only
    split
    · exact .set_bind (.of_quiet ((quiet_request e _ _).trans (.record _ rfl))) (.pure _)
    · exact .set_bind (.beside rfl rfl) (.throw _)
  unfold transact
  split
  · exact bypasses_modify_bind (.record _ rfl) (.bind hdispatch fun _ _ _ => .pure _)
  · refine .get ?_
    dsimp only
    split
    · exact .set_bind (.beside rfl rfl) (.throw _)
    · exact .set_bind (.beside rfl rfl) (.pure _)
    · exact .set_bind (.of_quiet ((quiet_request e _ e.dispatcher).trans (.record _ rfl))) (.pure _)

section

variable (hs : e.Stock T) (hj : j ≠ i)
include hs hj

theorem bypasses_assignAnswer (component : Nat) (body : List UInt8) (answer : String) :
    Bypasses T j n (assignAnswer i component body answer) e := by
  unfold assignAnswer
  refine .bind (bypasses_evaluateIn _ i body [] true) fun r e₁ he => ?_
  have hfinds := ((handles_evaluateIn hs rfl i body [] true).of_ok he).2
  exact .bind (bypasses_assign hj component hfinds.stays _) fun _ _ _ => .pure _

theorem bypasses_runVerb (component : Nat) (kind : Scpi.RequestKind) (assigns : Bool)
    (body : List UInt8) (s : ScpiProgress) :
    Bypasses T j n (runVerb i component kind assigns body s) e := by
  unfold runVerb
  refine .bind (bypasses_transact i component kind s) fun r e₁ he => ?_
  have hs₁ : e₁.Stock T :=
    ((handles_transact hs component kind s : Handles T i _ _ e).of_ok he).1.stock hs
  dsimp only
  split
  · exact .pure _
  next response _ =>
  have hend {e : Engine} (hs : e.Stock T) (s : ScpiProgress) :
      Bypasses T j n
        (do
          let consumed ← if assigns then assignAnswer i component body response.text else pure 0
          return Walk.onward { s with cursor := s.cursor + 1 + consumed, text := "" }) e := by
    split
    · exact .bind (bypasses_assignAnswer hs hj component body _) fun _ _ _ => .pure _
    · exact .pure _
  split
  · exact .get (.throw _)
  · split
    · exact bypasses_modify_bind (.record _ rfl) (hend (hs₁.record _) _)
    · exact hend hs₁ _

theorem bypasses_runPart (component flow : Nat) (payload : List UInt8) (s : ScpiProgress) :
    Bypasses T j n (runPart i component flow payload s) e := by
  unfold runPart
  dsimp only
  split
  · exact .throw _
  · exact .pure _
  · refine .bind (bypasses_evaluateIn _ i _ [] false) fun r _ _ => ?_
    exact .bind (bypasses_textOf _) fun _ _ _ => .pure _
  · exact bypasses_runVerb hs hj component _ _ _ s
  · exact bypasses_runVerb hs hj component _ _ _ s
  · exact bypasses_runVerb hs hj component _ _ _ s
  · exact .pure _

/-- **The parts of a payload** assign answers to write targets of their own instance only. -/
theorem bypasses_runParts (component flow : Nat) (payload : List UInt8) (more : Nat)
    (s : ScpiProgress) : Bypasses T j n (runParts i component flow payload more s) e := by
  induction more generalizing e s with
  | zero => exact .throw _
  | succ more ih =>
    unfold runParts
    refine .bind (bypasses_runPart hs hj component flow payload s) fun w e₁ he => ?_
    have hs₁ : e₁.Stock T :=
      ((handles_runPart hs component flow payload s : Handles T i _ _ e).of_ok he).1.stock hs
    split
    · exact ih hs₁ _
    · exact .pure _
    · exact .pure _

end

end

end Engine

end InstrumentFlow
