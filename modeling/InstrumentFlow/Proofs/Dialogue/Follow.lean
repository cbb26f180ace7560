import InstrumentFlow.Proofs.Dialogue.Kinship
import InstrumentFlow.Proofs.Transactions.Mute

/-!
# The same activity in two programs

Where two programs differ in their surroundings only, an activity has the same result in both and
leaves them so.

* `Pairs`, `Follows` -- two activities end in the same way and in related states, but for an excuse;
* `follows_bind`, `follows_get`, ... -- one rule for each way to put activities together;
* `follows_evaluateIn`, `follows_textOf` -- expressions and their texts;
* `follows_propagate`, `follows_assign` -- values on their way, where the excuse is that a task was
  refused.
-/

namespace InstrumentFlow

/-! ## 1. Activities side by side -/

section

variable {ε σ α β : Type}

/-- Two outcomes agree: both are the same result or the same failure, in related states. -/
inductive Pairs (R : σ → σ → Prop) : EStateM.Result ε σ α → EStateM.Result ε σ α → Prop
  | ok {r : α} {a e : σ} (h : R a e) : Pairs R (.ok r a) (.ok r e)
  | error {err : ε} {a e : σ} (h : R a e) : Pairs R (.error err a) (.error err e)

/-- **Two activities do the same**, the one from `a` and the other from `e`, unless the second has
    an excuse. -/
def Follows (excuse : σ → Prop) (R : σ → σ → Prop) (x y : EStateM ε σ α) (a e : σ) : Prop :=
  excuse (stateAfter (y e)) ∨ Pairs R (x a) (y e)

variable {excuse : σ → Prop} {R : σ → σ → Prop} {a e : σ}

/-- Where there is no excuse the two activities agree. -/
theorem Follows.pairs {x y : EStateM ε σ α} (h : Follows (fun _ => False) R x y a e) :
    Pairs R (x a) (y e) := h.resolve_left id

theorem follows_pure {r : α} (h : R a e) :
    Follows excuse R (pure r : EStateM ε σ α) (pure r) a e := Or.inr (.ok h)

theorem follows_throw {err : ε} (h : R a e) :
    Follows excuse R (throw err : EStateM ε σ α) (throw err) a e := Or.inr (.error h)

theorem follows_get {f g : σ → EStateM ε σ β} (h : Follows excuse R (f a) (g e) a e) :
    Follows excuse R (get >>= f) (get >>= g) a e := h

theorem follows_set {a' e' : σ} (h : R a' e') :
    Follows excuse R (set a' : EStateM ε σ PUnit) (set e') a e := Or.inr (.ok h)

theorem follows_set_bind {a' e' : σ} {f g : PUnit → EStateM ε σ β}
    (h : Follows excuse R (f ⟨⟩) (g ⟨⟩) a' e') :
    Follows excuse R (set a' >>= f) (set e' >>= g) a e := h

theorem follows_modify {c d : σ → σ} (h : R (c a) (d e)) :
    Follows excuse R (modify c : EStateM ε σ PUnit) (modify d) a e := Or.inr (.ok h)

theorem follows_modify_bind {c d : σ → σ} {f g : PUnit → EStateM ε σ β}
    (h : Follows excuse R (f ⟨⟩) (g ⟨⟩) (c a) (d e)) :
    Follows excuse R (modify c >>= f) (modify d >>= g) a e := h

/-- **Two activities whose first parts agree**: what holds of all agreeing failures, and after all
    agreeing results, holds of the whole. -/
theorem Pairs.bind {γ : Type}
    {P : EStateM.Result ε σ β → EStateM.Result ε σ γ → Prop} {x y : EStateM ε σ α}
    {f : α → EStateM ε σ β} {g : α → EStateM ε σ γ} (hx : Pairs R (x a) (y e))
    (hok : ∀ r a' e', R a' e' → P (f r a') (g r e'))
    (herror : ∀ err a' e', R a' e' → P (.error err a') (.error err e')) :
    P ((x >>= f) a) ((y >>= g) e) := by
  generalize hxa : x a = xa, hye : y e = ye at hx
  cases hx with
  | ok h =>
    rw [bind_of_ok hxa, bind_of_ok hye]
    exact hok _ _ _ h
  | error h =>
    rw [bind_of_error hxa, bind_of_error hye]
    exact herror _ _ _ h

/-- An excuse stays one where the activity goes on. -/
theorem excuse_bind {y : EStateM ε σ α} {g : α → EStateM ε σ β} (hy : excuse (stateAfter (y e)))
    (hg : ∀ r e', excuse e' → excuse (stateAfter (g r e'))) :
    excuse (stateAfter ((y >>= g) e)) := by
  cases hr : y e with
  | ok r e' =>
    rw [hr] at hy
    rw [bind_of_ok hr]
    exact hg r e' hy
  | error err e' =>
    rw [hr] at hy
    rw [bind_of_error hr]
    exact hy

/-- The first part needs no excuse. -/
theorem follows_bind_sure {x y : EStateM ε σ α} {f g : α → EStateM ε σ β}
    (hx : Follows (fun _ => False) R x y a e)
    (hf : ∀ r a' e', R a' e' → Follows excuse R (f r) (g r) a' e') :
    Follows excuse R (x >>= f) (y >>= g) a e :=
  Pairs.bind (P := fun ra re => excuse (stateAfter re) ∨ Pairs R ra re) hx.pairs hf
    fun _ _ _ h => Or.inr (.error h)

theorem follows_bind {x y : EStateM ε σ α} {f g : α → EStateM ε σ β} (hx : Follows excuse R x y a e)
    (hf : ∀ r a' e', R a' e' → Follows excuse R (f r) (g r) a' e')
    (hg : ∀ r e', excuse e' → excuse (stateAfter (g r e'))) :
    Follows excuse R (x >>= f) (y >>= g) a e := by
  rcases hx with hx | hx
  · exact Or.inl (excuse_bind hx hg)
  · exact follows_bind_sure (Or.inr hx) hf

end

namespace Engine

/-- After an activity without a word to the instrument, what was refused before is still told. -/
theorem Refuses.mutes {α : Type} {own : InstanceId → Nat → Bool} {y : Act α} (hy : Mutes own y)
    {e₀ e : Engine} (h : Refuses e₀ e) : Refuses e₀ (stateAfter (y e)) := by
  obtain ⟨news, hj, _⟩ := (hy e).after.news
  exact h.grow ⟨news, hj.symm⟩

section

variable {i : InstanceId} {n : Nat} {a₀ e₀ a e : Engine} (h : Akin i n a₀ e₀ a e)
include h

section

variable {excuse : Engine → Prop}

/-! ## 2. Expressions -/

theorem follows_resolved (activity : Activity) (v : Value) :
    Follows excuse (Akin i n a₀ e₀) (resolved activity v) (resolved activity v) a e := by
  unfold resolved
  refine follows_get ?_
  rw [h.scope, h.heap]
  split
  · exact follows_pure h
  · exact follows_throw h

theorem follows_textOf (v : Value) :
    Follows excuse (Akin i n a₀ e₀) (textOf v) (textOf v) a e := by
  unfold textOf
  refine follows_get ?_
  rw [h.heap]
  split
  · exact follows_pure h
  · exact follows_set_bind (follows_pure (h.breakDown .endlessArray))

omit h in
/-- What is on the stack before an evaluation does not matter. -/
theorem evaluates_cleared (c : Expression.Context) (code : List UInt8) (target : Bool)
    (s : Expression.Stack) (heap : Heap) :
    (if target then Expression.evaluateTarget c code else Expression.evaluate c code) ⟨s, heap⟩
      = (if target then Expression.evaluateTarget c code else Expression.evaluate c code)
        ⟨s.cleared, heap⟩ := by
  cases target <;> rfl

/-- **A stream has the same outcome in both programs.** -/
theorem runStream_akin (j : InstanceId) (code : List UInt8) (iterators : List Int32)
    (target : Bool) :
    (runStream j code iterators target a).1 = (runStream j code iterators target e).1
    ∧ Akin i n a₀ e₀ (runStream j code iterators target a).2
      (runStream j code iterators target e).2 := by
  have hstack : a.stack.cleared = e.stack.cleared :=
    congrArg (Expression.Stack.mk []) h.stackCapacity
  unfold runStream
  dsimp only
  rw [evaluates_cleared, evaluates_cleared _ _ _ e.stack, h.scope, h.heap, hstack]
  have hplace (stack : Expression.Stack) (heap : Heap) :
      Akin i n a₀ e₀ { a with stack, heap } { e with stack, heap } := by
    have hs (e : Engine) : { e with stack, heap }.storage
        = { e.storage with heap, stackCapacity := stack.capacity } := rfl
    exact h.silently (by rw [hs, hs, h.storage]) rfl rfl rfl rfl rfl
  split
  · exact ⟨rfl, hplace _ _⟩
  · refine ⟨rfl, ?_⟩
    dsimp only
    split
    · exact (hplace _ _).breakDown .endlessArray
    · exact hplace _ _

theorem follows_evaluateIn (activity : Activity) (j : InstanceId) (code : List UInt8)
    (iterators : List Int32) (target : Bool) :
    Follows excuse (Akin i n a₀ e₀) (evaluateIn activity j code iterators target)
      (evaluateIn activity j code iterators target) a e := by
  obtain ⟨hresult, hstate⟩ := runStream_akin h j code iterators target
  unfold evaluateIn
  refine follows_get ?_
  generalize runStream j code iterators target a = ra at hresult hstate ⊢
  generalize runStream j code iterators target e = re at hresult hstate ⊢
  refine follows_set_bind ?_
  rw [hresult]
  split
  · exact follows_pure hstate
  · exact follows_throw hstate

/-! ## 3. Assignments -/

theorem follows_coerced (prior v : Value) :
    Follows excuse (Akin i n a₀ e₀) (coerced prior v) (coerced prior v) a e := by
  unfold coerced
  refine follows_get ?_
  rw [h.heap]
  split
  · exact follows_pure h
  · exact follows_set_bind (follows_pure (h.breakDown .endlessArray))

theorem follows_writeNative (id : UInt32) (v : Value) :
    Follows excuse (Akin i n a₀ e₀) (writeNative id v) (writeNative id v) a e := by
  have hmemory {α : Type} (f : Host → α) (hf : ∀ host, f host.memory = f host) :
      f a.host = f e.host := by
    rw [← hf a.host, h.host, hf]
  have hlistens : a.host.listens = e.host.listens := hmemory Host.listens fun _ => rfl
  have hrefusal : a.host.refusal? id v = e.host.refusal? id v :=
    hmemory (Host.refusal? · id v) fun _ => rfl
  have htold : Akin i n a₀ e₀
      (if e.host.listens then a.record (.nativeWritten id (e.heap.image v)) else a)
      (if e.host.listens then e.record (.nativeWritten id (e.heap.image v)) else e) := by
    split
    · exact h.record _ rfl
    · exact h
  unfold writeNative
  refine follows_get ?_
  dsimp only
  rw [hlistens, h.heap]
  have hhost (c : Bool) (a : Engine) (event : Event) :
      (if c then a.record event else a).host = a.host := by
    cases c <;> rfl
  simp only [hhost, hrefusal]
  generalize (if e.host.listens then a.record (.nativeWritten id (e.heap.image v)) else a) = a₁
    at htold ⊢
  generalize (if e.host.listens then e.record (.nativeWritten id (e.heap.image v)) else e) = e₁
    at htold ⊢
  split
  · refine follows_set (htold.silently ?_ rfl rfl rfl rfl rfl)
    have hset : (a.host.setNative id v).memory = (e.host.setNative id v).memory :=
      congrArg (Host.setNative · id v) h.host
    show { a₁.storage with host := (a.host.setNative id v).memory }
      = { e₁.storage with host := (e.host.setNative id v).memory }
    rw [htold.storage, hset]
  · exact follows_set_bind (follows_throw htold)

end

/-! ## 4. Values on their way -/

theorem offerSlot_akin (j : InstanceId) (slot : Nat) (held v : Value) :
    Akin i n a₀ e₀ (a.offerSlot j slot held v) (e.offerSlot j slot held v) := by
  unfold offerSlot
  rw [h.heap]
  split
  · exact h
  · exact h.writeSlot j slot v
  · exact (h.breakDown .endlessArray).writeSlot j slot v

theorem follows_deliver (j : InstanceId) (v : Value) (c : Connection) :
    Follows (Refuses e₀) (Akin i n a₀ e₀) (deliver j v c) (deliver j v c) a e := by
  unfold deliver
  refine follows_get ?_
  dsimp only
  rcases h.instance? j with ⟨ha, he⟩ | ⟨s, t, ha, he, hst⟩
  · rw [ha, he]
    exact follows_throw h
  have hvalues : s.values = t.values := congrArg Seat.values hst
  rw [ha, he]
  dsimp only
  rw [hvalues]
  split
  · exact follows_pure h
  next held _ =>
  have htold := (offerSlot_akin h j c.targetInput.toNat held v).record
    (.delivered j c.targetInput.toNat c.targetComponent.toNat v) rfl
  rcases htold.ping j c.targetComponent.toNat with hfull | ⟨hqueued, hping⟩
  · -- a pulse that is used up tells no less
    refine Or.inl (hfull.grow ?_)
    show _ <:+ (if _ then _ else _ : Engine).journal
    split
    · obtain ⟨news, hj, _⟩ := (Mute.tolerant.clearSlot _ j _ : Mute noOne _ _).news
      exact ⟨news, hj.symm⟩
    · exact List.suffix_rfl
  · refine follows_set ?_
    rw [hqueued]
    split
    · exact hping.clearSlot j _
    · exact hping

theorem follows_deliverAll (j : InstanceId) (v : Value) (cs : List Connection) :
    Follows (Refuses e₀) (Akin i n a₀ e₀) (deliverAll j v cs) (deliverAll j v cs) a e := by
  induction cs generalizing a e with
  | nil => exact follows_pure h
  | cons c cs ih =>
    refine follows_bind (follows_deliver h j v c) (fun _ _ _ h => ih h) fun _ _ hfull => ?_
    exact hfull.mutes (Mute.tolerant.maintains_deliverAll j v cs : Mutes noOne _)

theorem follows_propagate (j : InstanceId) (component output : Nat) (v : Value) :
    Follows (Refuses e₀) (Akin i n a₀ e₀) (propagate j component output v)
      (propagate j component output v) a e := by
  unfold propagate
  refine follows_get ?_
  rw [h.stopRequested, h.stopped, h.executing]
  split
  · exact follows_pure h
  have hreset : Akin i n a₀ e₀
      (if e.executing = some (j, component) then a.resetSequenceInputs j component else a)
      (if e.executing = some (j, component) then e.resetSequenceInputs j component else e) := by
    split
    · exact h.resetSequenceInputs j component
    · exact h
  dsimp only
  generalize (if e.executing = some (j, component) then a.resetSequenceInputs j component else a)
    = a₁ at hreset ⊢
  generalize (if e.executing = some (j, component) then e.resetSequenceInputs j component else e)
    = e₁ at hreset ⊢
  have hsent := hreset.record (.sent j component output v) rfl
  refine follows_set_bind ?_
  rcases hreset.instance? j with ⟨ha, he⟩ | ⟨s, t, ha, he, hst⟩
  · rw [ha, he]
    exact follows_throw hsent
  have hrecord : a₁.componentRecord s.flow component = e₁.componentRecord t.flow component := by
    unfold componentRecord
    rw [hreset.definition, show s.flow = t.flow from congrArg Seat.flow hst]
  rw [ha, he]
  dsimp only
  rw [hrecord]
  split
  · exact follows_throw hsent
  split
  · exact follows_pure hsent
  next out _ =>
  exact follows_bind_sure (follows_resolved hsent _ v) fun w _ _ h =>
    follows_deliverAll h j w out.connections

theorem follows_assign (j : InstanceId) (component : Nat) (destination value : Value) :
    Follows (Refuses e₀) (Akin i n a₀ e₀) (assign j component destination value)
      (assign j component destination value) a e := by
  unfold assign
  refine follows_bind_sure (follows_resolved h _ value) fun v a e h => ?_
  split
  · exact follows_propagate h j component _ v
  · exact follows_writeNative h _ v
  · refine follows_get ?_
    rw [h.heap]
    split
    · exact follows_throw h
    · exact follows_bind_sure (follows_coerced h _ v) fun w _ _ h =>
        follows_modify ((h.noteAssigned _ w).writeElement _ _ w)
  · next target slot =>
    refine follows_get ?_
    rcases h.instance? target with ⟨ha, he⟩ | ⟨s, t, ha, he, hst⟩
    · rw [ha, he]
      exact follows_throw h
    · rw [ha, he]
      dsimp only
      rw [show s.values = t.values from congrArg Seat.values hst]
      split
      · exact follows_throw h
      · exact follows_bind_sure (follows_coerced h _ v) fun w _ _ h =>
          follows_modify ((h.noteAssigned _ w).writeSlot _ _ w)
  · refine follows_get ?_
    rw [h.globals]
    split
    · exact follows_throw h
    · exact follows_bind_sure (follows_coerced h _ v) fun w _ _ h =>
        follows_modify ((h.noteAssigned _ w).writeGlobal _ w)
  · exact follows_throw h

/-- **An answer is assigned in both programs alike.** -/
theorem follows_assignAnswer (j : InstanceId) (component : Nat) (body : List UInt8)
    (answer : String) :
    Follows (Refuses e₀) (Akin i n a₀ e₀) (assignAnswer j component body answer)
      (assignAnswer j component body answer) a e := by
  unfold assignAnswer
  refine follows_bind_sure (follows_evaluateIn h _ j body [] true) fun r _ _ h => ?_
  refine follows_bind (follows_assign h j component r.1 _) (fun _ _ _ h => follows_pure h) ?_
  exact fun _ _ hfull => hfull

end

end Engine

end InstrumentFlow
