import InstrumentFlow.Proofs.Engine.Course
import InstrumentFlow.Proofs.Engine.Marks
import InstrumentFlow.Proofs.Lifetime.Events

/-!
# Who waits for whom

A component that calls a flow is marked, and the mark is taken away when a call of it ends. The mark
is only one, however many instances the component called, so that the journal tells more than the
marks do.

* `waits` -- whether a component waits, read off the lives;
* `Call`, `callOf` -- what became of the call of an instance, read off the lives;
* `MarksTold`, `Changes.marksTold` -- the marks are what the lives say;
* `CallsTold`, `Moment.callsTold` -- every live instance that was called was waited for;
* `Moment` -- the moments of a run, those in the middle of a destruction among them.
-/

namespace InstrumentFlow

/-! ## 1. What the lives say -/

/-- Whether a component waits, by the last that was told of it. -/
def waits (i : InstanceId) (c : Nat) : List Event → Bool
  | [] => false
  | .created j _ :: earlier => if j = i then false else waits i c earlier
  | .awaited _ j c' :: earlier => if j = i ∧ c' = c then true else waits i c earlier
  | .released _ j c' :: earlier => if j = i ∧ c' = c then false else waits i c earlier
  | _ :: earlier => waits i c earlier

/-- What became of the call of an instance. -/
inductive Call where
  /-- Nobody has waited for the instance yet. -/
  | unmade
  /-- The component that called it waits. -/
  | awaited
  /-- The component that called it was told to wait no longer. -/
  | letGo
  deriving DecidableEq

/-- **What became of the call** of the instance `k` by the component `c` of `i`. -/
def callOf (k i : InstanceId) (c : Nat) : List Event → Call
  | [] => .unmade
  | .created j _ :: earlier => if j = k ∨ j = i then .unmade else callOf k i c earlier
  | .awaited child j c' :: earlier =>
    if child = some k ∧ j = i ∧ c' = c then .awaited else callOf k i c earlier
  | .released _ j c' :: earlier =>
    if j = i ∧ c' = c ∧ callOf k i c earlier = .awaited then .letGo else callOf k i c earlier
  | _ :: earlier => callOf k i c earlier

/-- As long as a call is waited for its component waits. -/
theorem waits_of_awaited {k i : InstanceId} {c : Nat} {l : List Event}
    (h : callOf k i c l = .awaited) : waits i c l = true := by
  induction l with
  | nil => cases h
  | cons event earlier ih =>
    cases event with
    | created j _ =>
      unfold callOf at h
      split at h
      · cases h
      next hne =>
      rw [waits, if_neg fun hj => hne (Or.inr hj)]
      exact ih h
    | awaited child j c' =>
      unfold callOf at h
      unfold waits
      split
      · rfl
      next hne =>
      rw [if_neg fun hc => hne hc.2] at h
      exact ih h
    | released _ j c' =>
      unfold callOf at h
      split at h
      · cases h
      next hne =>
      rw [waits, if_neg fun hc => hne ⟨hc.1, hc.2, h⟩]
      exact ih h
    | _ => exact ih h

/-- A call that was made stays made when its component is told to wait no longer. -/
theorem callOf_released {k i : InstanceId} {c : Nat} {l : List Event}
    (h : callOf k i c l ≠ .unmade) (child : Option InstanceId) (j : InstanceId) (c' : Nat) :
    callOf k i c (.released child j c' :: l) ≠ .unmade := by
  unfold callOf
  split
  · exact fun he => (nomatch he)
  · exact h

theorem callOf_created {k i j : InstanceId} {c : Nat} {l : List Event}
    (h : callOf k i c l ≠ .unmade) (hk : j ≠ k) (hi : j ≠ i) (flow : Nat) {found : Reading} :
    callOf k i c (@Event.created j flow found :: l) ≠ .unmade := by
  unfold callOf
  rwa [if_neg fun hj => hj.elim hk hi]

namespace Engine

/-! ## 2. Calls of instances -/

theorem Calm.wasCalled_iff {e e' : Engine} (h : Calm e e') (k i : InstanceId) (c : Nat) :
    e'.WasCalled k i c ↔ e.WasCalled k i c := by
  constructor
  · rintro ⟨s', hs', hp⟩
    obtain ⟨s, hs, he⟩ := h.back hs'
    exact ⟨s, hs, (Instance.parent_of_frame he).symm.trans hp⟩
  · rintro ⟨s, hs, hp⟩
    obtain ⟨s', hs', he⟩ := h.forth hs
    exact ⟨s', hs', (Instance.parent_of_frame he).trans hp⟩

section

variable {closed : Prop} {e : Engine} (hi : Inv closed e) {flow : Nat} {f : Flow}
  {parent : Option (InstanceId × Nat)} {isAction : Bool}
  (hp : ∀ p, parent = some p → e.forest.contains p.1 = true) (ha : isAction = parent.isSome)
include hi hp ha

theorem wasCalled_begun {k i : InstanceId} {c : Nat}
    (hw : (e.begun flow f parent isAction).WasCalled k i c) :
    (k = e.nextId flow f parent isAction ∧ parent = some (i, c))
    ∨ (e.nextId flow f parent isAction ≠ k ∧ e.nextId flow f parent isAction ≠ i
      ∧ e.WasCalled k i c) := by
  obtain ⟨s', hs', hp'⟩ := hw
  rcases instance?_begun_cases hi.sound hp ha hs' with ⟨hk, rfl⟩ | ⟨hk, s, l, hs, rfl⟩
  · exact Or.inl ⟨hk, hp'⟩
  · refine Or.inr ⟨Ne.symm hk, ?_, s, hs, hp'⟩
    rintro rfl
    obtain ⟨t, ht⟩ := hi.sound.parent_live hs hp'
    rw [show e.forest.get? _ = none from nextId_fresh hi.sound.free flow f parent isAction] at ht
    cases ht

end

/-- No component of a fresh instance waits. -/
theorem isAsync_freshInstance (flow : Nat) (f : Flow) (parent : Option (InstanceId × Nat))
    (isAction : Bool) (h : Heap) (c : Nat) :
    (freshInstance flow f parent isAction h).1.isAsync c = false := by
  unfold Instance.isAsync
  show ((Array.replicate f.components.length false)[c]?).getD false = false
  rw [Array.getElem?_replicate]
  split <;> rfl

/-! ## 3. The marks are what the lives say -/

/-- **The marks are what the lives say.** -/
def MarksTold (e : Engine) : Prop :=
  ∀ i s, e.instance? i = some s → ∀ c, c < s.async.size → s.isAsync c = waits i c e.lives

/-- A mark that is set or taken away, and told. -/
theorem MarksTold.mark {e e' : Engine} (h : e.MarksTold) {j : InstanceId} {component : Nat}
    {b : Bool} (hs : ∀ i, e'.instance? i
      = if i = j then (e.instance? j).map (·.mark component b) else e.instance? i)
    (hl : ∀ i c, waits i c e'.lives = if j = i ∧ component = c then b else waits i c e.lives) :
    e'.MarksTold := by
  intro i s' hs' c hlt
  rw [hs] at hs'
  rw [hl]
  split at hs'
  · next hij =>
    obtain ⟨s, hs, rfl⟩ := Option.map_eq_some_iff.mp hs'
    rw [Instance.size_async_mark] at hlt
    rw [Instance.isAsync_mark]
    by_cases hc : c = component
    · rw [if_pos ⟨hc, hlt⟩, if_pos ⟨hij.symm, hc.symm⟩]
    · rw [if_neg fun h => hc h.1, if_neg fun h => hc h.2.symm]
      exact h i s (hij ▸ hs) c hlt
  · next hij =>
    rw [if_neg fun h => hij h.1.symm]
    exact h i s' hs' c hlt

theorem Change.marksTold {closed : Prop} {e e' : Engine} (hchange : Change closed e e')
    (hi : Inv closed e) (h : e.MarksTold) : e'.MarksTold := by
  cases hchange with
  | touch ht =>
    intro i s' hs' c hlt
    obtain ⟨s, hs, he⟩ := ht.calm.back hs'
    have hasync := Instance.async_of_frame he
    rw [ht.calm.lives, ← h i s hs c (hasync ▸ hlt)]
    unfold Instance.isAsync
    rw [hasync]
  | @await child j component _ =>
    refine h.mark (fun i => instance?_startAsync e child j i component) fun i c => ?_
    rw [lives_startAsync]
    rfl
  | release child j component =>
    refine h.mark (fun i => instance?_clearAsync e child j i component) fun i c => ?_
    rw [lives_clearAsync]
    rfl
  | @begin flow f parent isAction hf hp ha =>
    intro i s' hs' c hlt
    rw [lives_begun, waits]
    rcases instance?_begun_cases hi.sound hp ha hs' with ⟨rfl, rfl⟩ | ⟨hne, s, l, hs, rfl⟩
    · rw [if_pos rfl]
      exact isAsync_freshInstance flow f parent isAction e.heap c
    · rw [if_neg (Ne.symm hne)]
      exact h i s hs c hlt
  | @bury j s forest hr _ =>
    intro i t' ht' c hlt
    obtain ⟨_, t, l, ht, rfl⟩ := Forest.get?_remove_children hr ht'
    rw [lives_buried]
    exact h i t ht c hlt
  | echo _ _ =>
    intro i s hs c hlt
    rw [lives_echoed]
    exact h i s hs c hlt

theorem Changes.marksTold {closed : Prop} {e e' : Engine} (hc : Changes closed e e')
    (hi : Inv closed e) (h : e.MarksTold) : e'.MarksTold :=
  hc.preserves (fun _ _ hi hchange => hchange.marksTold hi) hi h

/-! ## 4. Every live instance that was called was waited for -/

/-- **Every live instance that was called was waited for.** -/
def CallsTold (e : Engine) : Prop :=
  ∀ k i c, e.WasCalled k i c → callOf k i c e.lives ≠ .unmade

theorem CallsTold.calm {e e' : Engine} (h : e.CallsTold) (hc : Calm e e') : e'.CallsTold := by
  intro k i c hw
  rw [hc.lives]
  exact h k i c ((hc.wasCalled_iff k i c).mp hw)

theorem CallsTold.release {e : Engine} (h : e.CallsTold) (child : Option InstanceId)
    (j : InstanceId) (c' : Nat) : (e.clearAsync child j c').CallsTold := by
  intro k i c hw
  rw [lives_clearAsync]
  exact callOf_released (h k i c ((wasCalled_clearAsync e child j c' k i c).mp hw)) child j c'

theorem Loss.callsTold {closed : Prop} {e e' : Engine} (hloss : Loss closed e e')
    (h : e.CallsTold) : e'.CallsTold := by
  cases hloss with
  | touch ht => exact h.calm ht.calm
  | release child j c' => exact h.release child j c'
  | @bury j s forest hr _ =>
    rintro k i c ⟨t', ht', hp⟩
    obtain ⟨_, t, l, ht, rfl⟩ := Forest.get?_remove_children hr ht'
    rw [lives_buried]
    exact h k i c ⟨t, ht, hp⟩
  | echo _ _ =>
    intro k i c hw
    rw [lives_echoed]
    exact h k i c hw

theorem Losses.callsTold {closed : Prop} {e e' : Engine} (hc : Losses closed e e')
    (h : e.CallsTold) : e'.CallsTold := by
  induction hc with
  | refl => exact h
  | tail _ hloss ih => exact hloss.callsTold ih

/-- After a beginning only the new instance may not have been waited for yet. -/
theorem CallsTold.arisen {closed : Prop} {e : Engine} (h : e.CallsTold) (hi : Inv closed e)
    {flow : Nat} {f : Flow} (hf : e.definition.flows[flow]? = some f)
    {parent : Option (InstanceId × Nat)} {isAction : Bool}
    (hp : ∀ p, parent = some p → e.forest.contains p.1 = true) (ha : isAction = parent.isSome)
    {k i : InstanceId} {c : Nat} (hw : (e.arisen flow f parent isAction).WasCalled k i c) :
    (k = e.nextId flow f parent isAction ∧ parent = some (i, c))
      ∨ callOf k i c (e.arisen flow f parent isAction).lives ≠ .unmade := by
  have hcalm := (touches_arisen hi hf hp ha).calm
  rw [hcalm.lives, lives_begun]
  rcases wasCalled_begun hi hp ha ((hcalm.wasCalled_iff k i c).mp hw) with hnew | ⟨hk, hj, hw⟩
  · exact Or.inl hnew
  · exact Or.inr (callOf_created (h k i c hw) hk hj flow)

theorem Stride.callsTold {closed : Prop} {e e' : Engine} (hs : Stride closed e e')
    (hi : Inv closed e) (h : e.CallsTold) : e'.CallsTold := by
  cases hs with
  | touch ht => exact h.calm ht.calm
  | await j c' =>
    intro k i c hw
    rw [lives_startAsync, callOf, if_neg fun h => (nomatch h.1)]
    exact h k i c ((wasCalled_startAsync e none j c' k i c).mp hw)
  | release child j c' => exact h.release child j c'
  | @begin flow f hf =>
    intro k i c hw
    rcases h.arisen hi hf (by rintro p ⟨⟩) rfl hw with ⟨_, hp⟩ | hmade
    · cases hp
    · exact hmade
  | @call flow f j component hf hl =>
    intro k i c hw
    rw [lives_startAsync, callOf]
    split
    · exact fun he => (nomatch he)
    next hother =>
    have hlive : ∀ p, some (j, component) = some p → e.forest.contains p.1 = true := by
      rintro p ⟨⟩
      exact hl
    rcases h.arisen hi hf hlive rfl ((wasCalled_startAsync _ _ j component k i c).mp hw) with
      ⟨hk, hp⟩ | hmade
    · obtain ⟨rfl, rfl⟩ := Prod.mk.inj (Option.some.inj hp)
      exact absurd ⟨congrArg some hk.symm, rfl, rfl⟩ hother
    · exact hmade
  | destroy hd => exact (hd.losses hi).callsTold h

theorem Course.callsTold {closed : Prop} {e e' : Engine} (hc : Course closed e e')
    (hi : Inv closed e) (h : e.CallsTold) : e'.CallsTold := by
  induction hc with
  | refl => exact h
  | tail hc hs ih => exact hs.callsTold (Course.inv hc hi) ih

/-! ## 5. The moments of a run -/

/-- **A moment of a run**: between strides, or in the middle of a destruction. -/
def Moment (closed : Prop) (e₀ e : Engine) : Prop :=
  ∃ e₁, Course closed e₀ e₁ ∧ Losses closed e₁ e

namespace Moment

variable {closed : Prop} {e₀ e : Engine} (h : Moment closed e₀ e) (h₀ : Inv closed e₀)
include h h₀

theorem changes : Changes closed e₀ e := by
  obtain ⟨e₁, hc, hl⟩ := h
  exact (hc.changes h₀).trans hl.changes

theorem inv : Inv closed e := (h.changes h₀).inv h₀

theorem callsTold (hcalls : e₀.CallsTold) : e.CallsTold := by
  obtain ⟨e₁, hc, hl⟩ := h
  exact hl.callsTold (hc.callsTold h₀ hcalls)

end Moment

end Engine

end InstrumentFlow
