import InstrumentFlow.Proofs.Engine.Activities

/-!
# Slots that hold something

* `isDefined_clearSlot`, `isDefined_offerSlot` -- which slots hold something after a slot was
  emptied, and after a value came to one;
* `sequenceInputs_calm` -- calm changes leave alone which slots are pulses of a component;
* `pulsesGone_resetSequenceInputs` -- after a reset none of them holds anything.
-/

namespace InstrumentFlow.Engine

/-! ## 1. One slot written -/

theorem isDefined_setValue (s : Instance) (slot n : Nat) (v : Value) :
    isDefined (s.setValue slot v) n =
      if n = slot ∧ slot < s.values.size then !v.isUndefined else isDefined s n := by
  unfold isDefined Instance.setValue
  rw [Array.getElem?_setIfInBounds]
  by_cases hn : slot = n
  · subst hn
    by_cases hlt : slot < s.values.size
    · simp [hlt]
    · simp [hlt]
  · simp [hn, Ne.symm hn]

/-- What a handle leads to after a slot is written. -/
theorem instance?_writeSlot (e : Engine) (i j : InstanceId) (slot : Nat) (v : Value) :
    (e.writeSlot i slot v).instance? j =
      if j = i then (e.instance? i).map (·.setValue slot v) else e.instance? j :=
  instance?_modifyInstance e i j _

/-- After a slot is emptied, everything else holds what it held. -/
theorem isDefined_clearSlot {e : Engine} {i j : InstanceId} {slot : Nat} {s' : Instance}
    (h : (e.clearSlot i slot).instance? j = some s') :
    ∃ s, e.instance? j = some s
      ∧ ∀ n, isDefined s' n = true ↔ isDefined s n = true ∧ ¬ (j = i ∧ n = slot) := by
  unfold clearSlot at h
  cases hv : (e.instance? i).bind (·.values[slot]?) with
  | none =>
    simp only [hv] at h
    refine ⟨s', h, fun n => ⟨fun hn => ⟨hn, ?_⟩, And.left⟩⟩
    rintro ⟨rfl, rfl⟩
    rw [h, Option.bind_some] at hv
    simp [isDefined, hv] at hn
  | some v =>
    simp only [hv] at h
    obtain ⟨s, hs, hget⟩ := Option.bind_eq_some_iff.mp hv
    split at h
    · next hu =>
      refine ⟨s', h, fun n => ⟨fun hn => ⟨hn, ?_⟩, And.left⟩⟩
      rintro ⟨rfl, rfl⟩
      rw [hs] at h
      rw [← Option.some.inj h] at hn
      simp [isDefined, hget, hu] at hn
    · rw [instance?_writeSlot] at h
      split at h
      · next hj =>
        subst hj
        rw [hs] at h
        refine ⟨s, hs, fun n => ?_⟩
        rw [← Option.some.inj h, isDefined_setValue]
        have hlt : slot < s.values.size := (Array.getElem?_eq_some_iff.mp hget).1
        by_cases hn : n = slot
        · simp [hn, hlt, Value.isUndefined]
        · simp [hn]
      · next hj => exact ⟨s', h, fun n => by simp [hj]⟩

/-- After a value came to a slot, everything else holds what it held, and the slot holds something
    just if the value is something. -/
theorem isDefined_offerSlot {e : Engine} {i j : InstanceId} {slot : Nat} {held v : Value}
    {s s' : Instance} (hs : e.instance? i = some s) (hheld : s.values[slot]? = some held)
    (h : (e.offerSlot i slot held v).instance? j = some s') :
    ∃ t, e.instance? j = some t
      ∧ ∀ n, isDefined s' n = if j = i ∧ n = slot then !v.isUndefined else isDefined t n := by
  have hwrite {e : Engine} (he : e.instance? i = some s)
      (h : (e.writeSlot i slot v).instance? j = some s') :
      ∃ t, e.instance? j = some t
        ∧ ∀ n, isDefined s' n = if j = i ∧ n = slot then !v.isUndefined else isDefined t n := by
    rw [instance?_writeSlot] at h
    split at h
    · next hji =>
      rw [he] at h
      refine ⟨s, hji ▸ he, fun n => ?_⟩
      have hlt : slot < s.values.size := (Array.getElem?_eq_some_iff.mp hheld).1
      rw [← Option.some.inj h, isDefined_setValue]
      simp [hji, hlt]
    · next hji => exact ⟨s', h, fun n => by simp [hji]⟩
  unfold offerSlot at h
  split at h
  · next hsame =>
    refine ⟨s', h, fun n => ?_⟩
    split
    · next hjn =>
      obtain ⟨rfl, rfl⟩ := hjn
      rw [hs] at h
      rw [← Option.some.inj h, ← Heap.same?_isUndefined hsame]
      simp [isDefined, hheld]
    · rfl
  · exact hwrite hs h
  · exact hwrite (e := e.breakDown .endlessArray) hs h

/-! ## 2. The pulses of a component -/

theorem sequenceInputs_calm {e e' : Engine} (hc : Calm e e') (i : InstanceId) (component : Nat) :
    e'.sequenceInputs i component = e.sequenceInputs i component := by
  unfold sequenceInputs
  cases hs : e.instance? i with
  | none => rw [hc.none_iff.mpr hs]
  | some s =>
    obtain ⟨s', hs', he⟩ := hc.forth hs
    have hflow : e'.flowOf s' = e.flowOf s := by
      unfold flowOf
      rw [hc.definition, Instance.flow_of_frame he]
    rw [hs']
    simp only [hflow]

/-- After slots are emptied none of them holds anything. -/
theorem isDefined_clearSlots {e : Engine} {i : InstanceId} {slots : List Nat} {s' : Instance}
    (h : (slots.foldl (fun e slot => e.clearSlot i slot) e).instance? i = some s') :
    ∃ s, e.instance? i = some s
      ∧ ∀ n, isDefined s' n = true ↔ isDefined s n = true ∧ n ∉ slots := by
  induction slots generalizing e with
  | nil => exact ⟨s', h, fun n => by simp⟩
  | cons slot slots ih =>
    obtain ⟨s₁, hs₁, h₁⟩ := ih h
    obtain ⟨s, hs, h₂⟩ := isDefined_clearSlot hs₁
    refine ⟨s, hs, fun n => ?_⟩
    rw [h₁, h₂, List.mem_cons]
    simp only [true_and]
    tauto

/-- **After a reset no pulse of the component is left.** -/
theorem pulsesGone_resetSequenceInputs (e : Engine) (i : InstanceId) (component : Nat) :
    (e.resetSequenceInputs i component).PulsesGone i component := by
  intro s' hs' slot hslot
  have hstrokes : Strokes True nobody e (e.resetSequenceInputs i component) :=
    strokes_resetSequenceInputs .refl i component
  rw [sequenceInputs_calm hstrokes.calm] at hslot
  obtain ⟨s, _, h⟩ := isDefined_clearSlots hs'
  exact Bool.eq_false_iff.mpr fun hd => ((h slot).mp hd).2 hslot

end InstrumentFlow.Engine
