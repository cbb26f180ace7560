import InstrumentFlow.Proofs.Storage.Deposit

/-!
# Activities as deposits

An activity in which no instance goes is a row of deposits. Where the host hands in no write targets
and the instance is alive, it does not fail for want of what a reference leads to.

* `Handles` -- an activity is a row of deposits and does not fail like that;
* `handles_bind`, `handles_set`, ... -- one rule for each way to put activities together;
* `quiet_ping`, `quiet_setProgress`, ... -- what brings nothing into storage;
* `Feeds` -- the slot is an input, into which any value may come;
* `handles_evaluateProperty`, `handles_resolved` -- evaluations, and a look at what a write target
  holds;
* `handles_propagate` -- a value along every connection of an output.
-/

namespace InstrumentFlow

open Expression (Points Operand points_of_noPlaces)

namespace Engine

/-! ## 1. Activities -/

/-- **The activity is a row of deposits**, its result is as promised, and if the instance is alive
    it does not fail for want of what a reference leads to. -/
def Handles {α : Type} (T : Terms) (i : InstanceId) (Q : α → Engine → Prop) (a : Act α)
    (e : Engine) : Prop :=
  Yields (fun err e' => Deposits T True e e'
      ∧ (T.noPlaces → e.instance? i ≠ none → err.isStale = false))
    (fun r e' => Deposits T True e e' ∧ Q r e') a e

section

variable {α β : Type} {T : Terms} {i : InstanceId} {Q : α → Engine → Prop}
  {U : β → Engine → Prop} {e e' : Engine}

theorem handles_pure {r : α} (hq : Q r e) : Handles T i Q (pure r) e := ⟨.refl, hq⟩

theorem handles_throw {err : FlowError}
    (h : T.noPlaces → e.instance? i ≠ none → err.isStale = false) :
    Handles T i Q (throw err) e := ⟨.refl, h⟩

/-- After deposits an activity goes on as it would from there. -/
theorem Handles.after {a : Act α} (hd : Deposits T True e e') (h : Handles T i Q a e') :
    Yields (fun err e'' => Deposits T True e e''
        ∧ (T.noPlaces → e.instance? i ≠ none → err.isStale = false))
      (fun r e'' => Deposits T True e e'' ∧ Q r e'') a e' :=
  h.mono (fun _ _ hf => ⟨hd.trans hf.1, fun hn hl => hf.2 hn (hd.live hl)⟩)
    fun _ _ hq => ⟨hd.trans hq.1, hq.2⟩

/-- What is done in the name of another instance that is there if this one is. -/
theorem Handles.of_live {j : InstanceId} {a : Act α} (h : Handles T j Q a e)
    (hl : e.instance? i ≠ none → e.instance? j ≠ none) : Handles T i Q a e :=
  Yields.mono h (fun _ _ hf => ⟨hf.1, fun hn hi => hf.2 hn (hl hi)⟩) fun _ _ => id

theorem handles_get {f : Engine → Act β} (h : Handles T i U (f e) e) :
    Handles T i U (get >>= f) e := h

theorem handles_set {Q : PUnit → Engine → Prop} (hd : Deposits T True e e') (hq : Q ⟨⟩ e') :
    Handles T i Q (set e') e := ⟨hd, hq⟩

theorem handles_modify {g : Engine → Engine} {Q : PUnit → Engine → Prop}
    (hd : Deposits T True e (g e)) (hq : Q ⟨⟩ (g e)) : Handles T i Q (modify g) e := ⟨hd, hq⟩

variable (hs : e.Stock T)
include hs

theorem handles_bind {a : Act α} {f : α → Act β} (ha : Handles T i Q a e)
    (hf : ∀ r e', Deposits T True e e' → e'.Stock T → Q r e' → Handles T i U (f r) e') :
    Handles T i U (a >>= f) e :=
  yields_bind ha fun r e' h => (hf r e' h.1 (h.1.stock hs) h.2).after h.1

theorem handles_set_bind {f : PUnit → Act β} (hd : Deposits T True e e')
    (h : e'.Stock T → Handles T i U (f ⟨⟩) e') : Handles T i U (set e' >>= f) e :=
  yields_set_bind ((h (hd.stock hs)).after hd)

theorem handles_modify_bind {g : Engine → Engine} {f : PUnit → Act β}
    (hd : Deposits T True e (g e)) (h : (g e).Stock T → Handles T i U (f ⟨⟩) (g e)) :
    Handles T i U (modify g >>= f) e :=
  yields_modify_bind ((h (hd.stock hs)).after hd)

end

/-! ## 2. What brings nothing into storage -/

section

variable {staying : Prop}

theorem quiet_failFatally (e : Engine) (i : InstanceId) (component : Nat) (message : String) :
    Quiet staying e (e.failFatally i component message) := by
  have hfail : Quiet staying e (e.modifyInstance i fun s => { s with failed := true }) :=
    .modifyInstance e i fun _ => ⟨rfl, rfl, rfl, fun _ => id⟩
  have herror : Quiet staying e
      { e.modifyInstance i (fun s => { s with failed := true }) with
        lastError := some message } :=
    hfail.trans (.beside rfl rfl rfl rfl rfl rfl rfl)
  exact ((herror.trans (.record _ rfl)).trans (.record _ rfl)).trans
    (.beside rfl rfl rfl rfl rfl rfl rfl)

theorem quiet_enqueue (e : Engine) (t : Task) : Quiet staying e (e.enqueue t).2 := by
  unfold enqueue
  split
  · next queue _ =>
    have hset : Quiet staying e { e with queue } := .beside rfl rfl rfl rfl rfl rfl rfl
    exact hset.trans (.record _ rfl)
  · exact .record e rfl

theorem quiet_ping (e : Engine) (i : InstanceId) (component : Nat) :
    Quiet staying e (e.ping i component).2 := by
  rcases ping_cases e i component with ⟨queue, _, _, he⟩ | he | ⟨_, he⟩
  · rw [he]
    have hset : Quiet staying e { e with queue } := .beside rfl rfl rfl rfl rfl rfl rfl
    exact hset.trans (.record _ rfl)
  · rw [he]
    exact .refl e
  · rw [he]
    exact (Quiet.record e rfl).trans (quiet_failFatally _ i component _)

theorem quiet_pingAll (e : Engine) (i : InstanceId) (components : List Nat) :
    Quiet staying e (e.pingAll i components) := by
  unfold pingAll
  induction components generalizing e with
  | nil => exact .refl e
  | cons c cs ih => exact (quiet_ping e i c).trans (ih _)

theorem quiet_setProgress (e : Engine) (i : InstanceId) (component : Nat) {p : Option Progress}
    (hp : ∀ l, p ≠ some (.loop l)) : Quiet staying e (e.setProgress i component p) :=
  .modifyInstance e i fun s => .setProgress s component hp

theorem quiet_allocateProgress (e : Engine) (i : InstanceId) (component : Nat) {p : Progress}
    (hp : ∀ l, p ≠ .loop l) : Quiet staying e (e.allocateProgress i component p) := by
  unfold allocateProgress
  split
  · exact (quiet_setProgress e i component fun l h => hp l (Option.some.inj h)).trans
      (.record _ rfl)
  · exact .refl e

theorem quiet_releaseProgress (e : Engine) (i : InstanceId) (component : Nat) :
    Quiet staying e (e.releaseProgress i component) := by
  unfold releaseProgress
  split
  · have hset : Quiet staying e (e.setProgress i component none) :=
      quiet_setProgress e i component fun l => (Option.some_ne_none _).symm
    exact hset.trans (.record _ rfl)
  · exact .refl e

theorem quiet_settleProgress (e : Engine) (i : InstanceId) (component : Nat) (hadProgress : Bool)
    {p : Option Progress} (hp : ∀ l, p ≠ some (.loop l)) :
    Quiet staying e (e.settleProgress i component hadProgress p) := by
  unfold settleProgress
  split
  · dsimp only
    split
    · exact (quiet_setProgress e i component hp).trans (.record _ rfl)
    · exact quiet_setProgress e i component hp
  · exact .refl e

theorem quiet_markAsync (e : Engine) (i : InstanceId) (component : Nat) (waits : Bool) :
    Quiet staying e (e.markAsync i component waits) := by
  unfold markAsync
  split
  · exact .refl e
  · split
    · have hset : Quiet staying e (e.modifyInstance i (·.setAsync component waits)) :=
        .modifyInstance e i fun _ => ⟨rfl, rfl, rfl, fun _ => id⟩
      exact hset.trans (.record _ rfl)
    · exact .refl e

theorem quiet_startAsync (e : Engine) (child : Option InstanceId) (i : InstanceId)
    (component : Nat) : Quiet staying e (e.startAsync child i component) := by
  have hnote : Quiet staying e (e.record (.awaited child i component)) := .record e rfl
  exact hnote.trans (quiet_markAsync _ i component _)

theorem quiet_clearAsync (e : Engine) (child : Option InstanceId) (i : InstanceId)
    (component : Nat) : Quiet staying e (e.clearAsync child i component) := by
  have hnote : Quiet staying e (e.record (.released child i component)) := .record e rfl
  exact hnote.trans (quiet_markAsync _ i component _)

theorem quiet_markFailed (catcher : InstanceId) (steps : Nat) (i : InstanceId) (e : Engine) :
    Quiet staying e (markFailed catcher steps i e) := by
  induction steps generalizing i e with
  | zero => exact .refl e
  | succ steps ih =>
    have hfail : Quiet staying e (e.modifyInstance i fun s => { s with failed := true }) :=
      .modifyInstance e i fun _ => ⟨rfl, rfl, rfl, fun _ => id⟩
    unfold markFailed
    split
    · exact .refl e
    · split
      · exact .refl e
      · dsimp only
        split
        · exact hfail.trans (ih _ _)
        · exact hfail

theorem quiet_routeError (e : Engine) (i : InstanceId) (component : Nat) (catcher : InstanceId)
    (catchComponent : Nat) (message : String) :
    Quiet staying e (e.routeError i component catcher catchComponent message) := by
  have hmark : Quiet staying e (markFailed catcher e.chainBound i e) := quiet_markFailed _ _ _ e
  have hroute : Quiet staying e ((markFailed catcher e.chainBound i e).record
      (.routed i component catcher catchComponent message)) := hmark.trans (.record _ rfl)
  have hkeep := hroute.trans
    (quiet_allocateProgress _ catcher catchComponent (p := .catchError message)
      fun _ h => nomatch h)
  have hqueue := hkeep.trans (quiet_enqueue _ ⟨catcher, catchComponent, false⟩)
  unfold routeError
  dsimp only
  split
  · next he =>
    rw [he] at hqueue
    exact hqueue
  · next he =>
    rw [he] at hqueue
    exact hqueue.trans (quiet_failFatally _ i component _)

end

/-! ## 3. Slots -/

/-- The slot is an input of a live instance. -/
def Feeds (e : Engine) (i : InstanceId) (slot : Nat) : Prop :=
  ∃ s, e.instance? i = some s ∧ slot < s.inputCount

section

variable {T : Terms} {staying : Prop} {e e' : Engine} {i : InstanceId}

theorem Feeds.live {slot : Nat} (h : e.Feeds i slot) : e.instance? i ≠ none := by
  obtain ⟨s, hs, _⟩ := h
  exact Option.ne_none_iff_exists'.mpr ⟨s, hs⟩

theorem Feeds.after {slot : Nat} (h : e.Feeds i slot) (hd : Deposits T True e e') :
    e'.Feeds i slot := by
  obtain ⟨s, hs, hlt⟩ := h
  obtain ⟨s', hs', hinputs, _⟩ := hd.shape hs
  exact ⟨s', hs', hinputs.symm ▸ hlt⟩

theorem deposits_clearSlot {slot : Nat} (h : e.Feeds i slot) :
    Deposits T True e (e.clearSlot i slot) := by
  obtain ⟨s, hs, hlt⟩ := h
  unfold clearSlot
  split
  · split
    · exact .refl
    · exact .single (.feed hs hlt (fair_of_bare ⟨rfl, rfl⟩))
  · exact .refl

theorem deposits_clearSlots {slots : List Nat} (h : ∀ slot ∈ slots, e.Feeds i slot) :
    Deposits T True e (slots.foldl (fun e slot => e.clearSlot i slot) e) := by
  induction slots generalizing e with
  | nil => exact .refl
  | cons slot slots ih =>
    have hclear : Deposits T True e (e.clearSlot i slot) :=
      deposits_clearSlot (h slot List.mem_cons_self)
    exact hclear.trans (ih fun n hn => (h n (List.mem_cons_of_mem slot hn)).after hclear)

/-- The inputs of a flow are inputs of its instances. -/
theorem Stock.feeds (hs : e.Stock T) {s : Instance} (hi : e.instance? i = some s) {slot : Nat}
    (hn : slot < (e.flowOf s).inputCount) : e.Feeds i slot := by
  obtain ⟨f, hf, hinputs, _⟩ := hs.shape i s hi
  unfold flowOf at hn
  rw [hf, Option.getD_some] at hn
  exact ⟨s, hi, hinputs.symm ▸ hn⟩

theorem deposits_resetSequenceInputs (hs : e.Stock T) (i : InstanceId) (component : Nat) :
    Deposits T True e (e.resetSequenceInputs i component) := by
  refine deposits_clearSlots fun slot hslot => ?_
  unfold sequenceInputs at hslot
  split at hslot
  · cases hslot
  next s hi =>
  dsimp only at hslot
  split at hslot
  · cases hslot
  have hpulse := (List.mem_filter.mp hslot).2
  refine hs.feeds hi ?_
  unfold Flow.isSequenceInput Flow.hasFlag at hpulse
  split at hpulse
  · next hflags => exact (List.getElem?_eq_some_iff.mp hflags).1
  · cases hpulse

/-- A connection leads to an input. -/
theorem Stock.feeds_wire (hs : e.Stock T) {s : Instance} (hi : e.instance? i = some s)
    {component : Nat} {record : Component} (hr : e.componentRecord s.flow component = .ok record)
    {out : Output} (ho : out ∈ record.outputs) {c : Connection} (hc : c ∈ out.connections) :
    e.Feeds i c.targetInput.toNat := by
  obtain ⟨f, hf, hinputs, _⟩ := hs.shape i s hi
  have hrecord := componentRecord_eq_ok_iff.mp hr
  unfold Definition.component? at hrecord
  rw [hf, Option.bind_some] at hrecord
  exact ⟨s, hi, hinputs.symm ▸ (Definition.wire_lt hs.valid hf hrecord ho hc).2⟩

/-! ## 4. Evaluation -/

/-- A value that may be stored, or a write target that leads somewhere. -/
def Finds (e : Engine) (T : Terms) (i : InstanceId) (target : Bool) (v : Value) : Prop :=
  if target then Leads T e i v else Fair T e.heap v

theorem deposits_breakDown {b : Breakdown} (hb : b = .endlessArray → e.heap.Endless) :
    Deposits T staying e (e.breakDown b) := .single (.breakDown b hb)

theorem deposits_record {event : Event} (h : event.isStorage = false) :
    Deposits T staying e (e.record event) := (Quiet.record e h).deposits

/-- **A stream** is a row of deposits. It finds what it should, or fails without a lost
    reference. -/
theorem runStream_finds (hs : e.Stock T) (i : InstanceId) (code : List UInt8)
    (iterators : List Int32) (target : Bool) :
    Deposits T True e (runStream i code iterators target e).2
    ∧ (∀ r, (runStream i code iterators target e).1 = .ok r →
        (runStream i code iterators target e).2.Finds T i target r.1)
    ∧ ∀ cause, (runStream i code iterators target e).1 = .error cause →
        T.noPlaces → e.instance? i ≠ none → cause ≠ .danglingReference := by
  let c : Expression.Context := ⟨e.scope, i, iterators⟩
  have hrun : Expression.Evaluates T c e.heap
      (fun r w => if target then r.1.isAssignable = true ∧ Operand T c w.heap r.1
        else Fair T w.heap r.1)
      (if target then Expression.evaluateTarget c code else Expression.evaluate c code)
      ⟨e.stack, e.heap⟩ := by
    have hf := hs.footing i iterators
    cases target with
    | true => exact Expression.evaluates_target hf .refl code
    | false => exact Expression.evaluates_value hf .refl code
  unfold runStream
  dsimp only
  split
  · next r w hw =>
    obtain ⟨hamid, hfinds⟩ := hrun.of_ok hw
    refine ⟨.single (.aside w.stack hamid.grown), fun r' hr => ?_, fun _ hr => nomatch hr⟩
    cases hr
    unfold Finds
    cases target with
    | true => exact ⟨hfinds.1, hfinds.2.points⟩
    | false => exact hfinds
  · next cause w hw =>
    have hfails := hrun.of_error hw
    have haside : Deposits T True e { e with stack := w.stack, heap := w.heap } :=
      .single (.aside w.stack hfails.grown)
    refine ⟨?_, fun _ hr => (nomatch hr), fun cause' hr hn hl => ?_⟩
    · split
      · next he => exact haside.trans (deposits_breakDown fun _ => hfails.endless he)
      · exact haside
    · cases hr
      refine hfails.dangling hn fun hnone => hl ?_
      exact Option.map_eq_none_iff.mp hnone

theorem handles_evaluateIn (hs : e.Stock T) {activity : Activity}
    (ha : activity.readsBack = false) (i : InstanceId) (code : List UInt8)
    (iterators : List Int32) (target : Bool) :
    Handles T i (fun r e' => e'.Finds T i target r.1)
      (evaluateIn activity i code iterators target) e := by
  obtain ⟨hdeposits, hfinds, hcause⟩ := runStream_finds hs i code iterators target
  unfold evaluateIn
  refine yields_get (yields_set_bind ?_)
  dsimp only
  split
  · next r hr => exact ⟨hdeposits, hfinds r hr⟩
  · next cause hr =>
    refine ⟨hdeposits, fun hn hl => ?_⟩
    have hcause := hcause cause hr hn hl
    simp [FlowError.isStale, ha, hcause]

/-- **The value of a property may be stored**; as a write target it leads somewhere. The instance is
    alive where there is one. -/
theorem handles_evaluateProperty (hs : e.Stock T) (i : InstanceId) (component property : Nat)
    (iterators : List Int32) (target : Bool) :
    Handles T i (fun v e' => e'.instance? i ≠ none ∧ e'.Finds T i target v)
      (evaluateProperty i component property iterators target) e := by
  unfold evaluateProperty
  refine handles_get ?_
  split
  · next hi => exact handles_throw fun _ hl => absurd hi hl
  next s hi =>
  have hlive : e.instance? i ≠ none := Option.ne_none_iff_exists'.mpr ⟨s, hi⟩
  split
  · next err he =>
    refine handles_throw fun _ _ => ?_
    unfold componentRecord at he
    split at he <;> cases he
    rfl
  split
  · exact handles_throw fun _ _ => rfl
  · refine handles_bind hs (handles_evaluateIn hs rfl i _ iterators target) fun r e' hd _ hr => ?_
    exact handles_pure ⟨hd.live hlive, hr⟩

/-- **What a write target holds may be stored.** Where the target leads somewhere it holds
    something. -/
theorem handles_resolved (hs : e.Stock T) (activity : Activity) {v : Value}
    (hp : T.barred v → Points e.scope i e.heap v) :
    Handles T i (fun w e' => e' = e ∧ ((T.noArrays → v.Known e.heap) → Fair T e.heap w))
      (resolved activity v) e := by
  unfold resolved
  refine handles_get ?_
  split
  · next w hw =>
    refine handles_pure ⟨rfl, fun hk => ?_⟩
    exact Expression.resolve_fair (hs.footing i []) .refl hk hw
  · next cause he =>
    refine handles_throw fun hn _ => ?_
    obtain ⟨u, hu⟩ := Expression.resolve_points (points_of_noPlaces hn hp)
    rw [hu] at he
    cases he

theorem handles_textOf (hs : e.Stock T) (v : Value) :
    Handles T i (fun _ _ => True) (textOf v) e := by
  unfold textOf
  refine handles_get ?_
  split
  · exact handles_pure trivial
  · next hnone =>
    have hbreak : Deposits T True e (e.breakDown .endlessArray) :=
      deposits_breakDown fun _ => ⟨v, v, Or.inl hnone⟩
    exact handles_set_bind hs hbreak fun _ => handles_pure trivial

/-! ## 5. Values on their way -/

theorem deposits_offerSlot {slot : Nat} {held v : Value} (h : e.Feeds i slot)
    (hv : Fair T e.heap v) : Deposits T True e (e.offerSlot i slot held v) := by
  obtain ⟨s, hs, hlt⟩ := h
  unfold offerSlot
  split
  · exact .refl
  · exact .single (.feed hs hlt hv)
  · next hnone =>
    have hbreak : Deposits T True e (e.breakDown .endlessArray) :=
      deposits_breakDown fun _ => ⟨held, v, Or.inr hnone⟩
    exact hbreak.tail (.feed (e := e.breakDown .endlessArray) hs hlt hv)

/-- **A value comes to the end of a connection.** -/
theorem handles_deliver {v : Value} {c : Connection} (hv : Fair T e.heap v)
    (hw : e.Feeds i c.targetInput.toNat) :
    Handles T i (fun _ _ => True) (deliver i v c) e := by
  unfold deliver
  refine handles_get ?_
  dsimp only
  split
  · next hnone => exact absurd hnone hw.live
  split
  · exact handles_pure trivial
  next held _ =>
  have hoffer : Deposits T True e (e.offerSlot i c.targetInput.toNat held v) :=
    deposits_offerSlot hw hv
  have harrive : Deposits T True e ((e.offerSlot i c.targetInput.toNat held v).record
      (.delivered i c.targetInput.toNat c.targetComponent.toNat v)) :=
    hoffer.trans (deposits_record rfl)
  have hping := harrive.trans (quiet_ping _ i c.targetComponent.toNat).deposits
  refine handles_set ?_ trivial
  split
  · exact hping.trans (deposits_clearSlot (hw.after hping))
  · exact hping

theorem handles_deliverAll {v : Value} {cs : List Connection} (hs : e.Stock T)
    (hv : Fair T e.heap v) (hw : ∀ c ∈ cs, e.Feeds i c.targetInput.toNat) :
    Handles T i (fun _ _ => True) (deliverAll i v cs) e := by
  induction cs generalizing e with
  | nil => exact handles_pure trivial
  | cons c cs ih =>
    have hfirst := handles_deliver hv (hw c List.mem_cons_self)
    refine handles_bind hs hfirst fun _ e' hd hs' _ => ih hs' (hd.fair hv) fun c' hc' => ?_
    exact (hw c' (List.mem_cons_of_mem c hc')).after hd

/-- **A value is sent out of an output.** -/
theorem handles_propagate (hs : e.Stock T) (i : InstanceId) (component output : Nat) {v : Value}
    (hv : Fair T e.heap v) :
    Handles T i (fun _ _ => True) (propagate i component output v) e := by
  unfold propagate
  refine handles_get ?_
  split
  · exact handles_pure trivial
  have hreset : Deposits T True e (if e.executing = some (i, component) then
      e.resetSequenceInputs i component else e) := by
    split
    · exact deposits_resetSequenceInputs hs i component
    · exact .refl
  generalize (if e.executing = some (i, component) then
    e.resetSequenceInputs i component else e) = e₁ at hreset ⊢
  have hsent : Deposits T True e (e₁.record (.sent i component output v)) :=
    hreset.trans (deposits_record rfl)
  have hv₁ : Fair T (e₁.record (.sent i component output v)).heap v := hsent.fair hv
  dsimp only
  split
  · next hnone =>
    refine yields_set_bind ⟨hsent, fun _ hl => absurd ?_ (hreset.live hl)⟩
    exact hnone
  next s hi =>
  split
  · next err he =>
    refine handles_set_bind hs hsent fun _ => handles_throw fun _ _ => ?_
    unfold componentRecord at he
    split at he <;> cases he
    rfl
  next record hr =>
  split
  · exact handles_set_bind hs hsent fun _ => handles_pure trivial
  next out hout =>
  refine handles_set_bind hs hsent fun hs₁ => ?_
  have hresolved := handles_resolved (i := i) hs₁ .readPropagated
    fun hb => absurd hb hv₁.allowed
  refine handles_bind hs₁ hresolved fun w e₂ _ hs₂ hw => ?_
  obtain ⟨rfl, hw⟩ := hw
  refine handles_deliverAll hs₂ (hw hv₁.known) fun c hc => ?_
  exact hs₁.feeds_wire hi hr (List.mem_of_getElem? hout) hc

theorem handles_pulse (hs : e.Stock T) (i : InstanceId) (component : Nat) :
    Handles T i (fun _ _ => True) (pulse i component) e :=
  handles_propagate hs i component _ (fair_of_bare ⟨rfl, rfl⟩)

end

end Engine

end InstrumentFlow
