import InstrumentFlow.Proofs.Engine.Change

/-!
# Waiting components

* `Marked` -- a component of a live instance waits;
* `instance?_markAsync`, `wasCalled_markAsync`, `marked_clearAsync` -- marks set and taken away;
* `IsIdle`, `isCollectible_iff` -- nothing but waiting components keeps an instance.
-/

namespace InstrumentFlow

/-! ## 1. The marks of an instance -/

namespace Instance

/-- An instance with a mark set or taken away, if it has the component. -/
def mark (s : Instance) (component : Nat) (waits : Bool) : Instance :=
  if component < s.async.size ∧ s.isAsync component ≠ waits then s.setAsync component waits else s

theorem isAsync_eq_false_of_le {s : Instance} {c : Nat} (h : s.async.size ≤ c) :
    s.isAsync c = false := by
  unfold isAsync
  rw [Array.getElem?_eq_none h]
  rfl

theorem isAsync_setAsync (s : Instance) (component c : Nat) (waits : Bool) :
    (s.setAsync component waits).isAsync c
      = if c = component ∧ c < s.async.size then waits else s.isAsync c := by
  unfold isAsync setAsync
  rw [Array.getElem?_setIfInBounds]
  by_cases hc : component = c
  · subst hc
    by_cases hlt : component < s.async.size <;> simp [hlt]
  · simp [hc, Ne.symm hc]

theorem isAsync_mark (s : Instance) (component c : Nat) (waits : Bool) :
    (s.mark component waits).isAsync c
      = if c = component ∧ c < s.async.size then waits else s.isAsync c := by
  unfold mark
  split
  · exact isAsync_setAsync s component c waits
  next h =>
  split
  · next hc =>
    obtain ⟨rfl, hlt⟩ := hc
    exact Classical.byContradiction fun hne => h ⟨hlt, hne⟩
  · rfl

/-- A mark changes nothing but the marks. -/
theorem mark_eq (s : Instance) (component : Nat) (waits : Bool) :
    s.mark component waits
      = { s with
          async := (s.mark component waits).async
          asyncCount := (s.mark component waits).asyncCount } := by
  unfold mark
  split <;> rfl

theorem parent_mark (s : Instance) (component : Nat) (waits : Bool) :
    (s.mark component waits).parent = s.parent := congrArg (·.parent) (s.mark_eq component waits)

theorem size_async_mark (s : Instance) (component : Nat) (waits : Bool) :
    (s.mark component waits).async.size = s.async.size := by
  unfold mark setAsync
  split
  · exact Array.size_setIfInBounds
  · rfl

theorem asyncCount_eq_zero_iff {d : Definition} {s : Instance} (h : Fits d s) :
    s.asyncCount = 0 ↔ ∀ c, s.isAsync c = false := by
  rw [h.asyncCount_eq, Array.count_eq_zero]
  unfold isAsync
  constructor
  · intro hout c
    cases hget : s.async[c]? with
    | none => rfl
    | some b =>
      cases b with
      | false => rfl
      | true => exact absurd (Array.mem_of_getElem? hget) hout
  · intro hall hmem
    obtain ⟨c, hlt, hget⟩ := Array.mem_iff_getElem.mp hmem
    have hc := hall c
    rw [Array.getElem?_eq_getElem hlt, hget] at hc
    cases hc

end Instance

namespace Engine

/-! ## 2. Marks set and taken away -/

/-- A component of a live instance waits. -/
def Marked (e : Engine) (i : InstanceId) (c : Nat) : Prop :=
  ∃ s, e.instance? i = some s ∧ s.isAsync c = true

theorem instance?_markAsync (e : Engine) (i j : InstanceId) (component : Nat) (waits : Bool) :
    (e.markAsync i component waits).instance? j
      = if j = i then (e.instance? i).map (·.mark component waits) else e.instance? j := by
  unfold markAsync
  split
  · next hs =>
    rw [hs]
    split
    · next hj => rw [hj, hs]; rfl
    · rfl
  next s hs =>
  split
  · next hmark =>
    refine (instance?_modifyInstance e i j _).trans (if_congr Iff.rfl ?_ rfl)
    rw [hs, Option.map_some, Option.map_some, Instance.mark, if_pos hmark]
  · next hmark =>
    rw [hs, Option.map_some, Instance.mark, if_neg hmark]
    split
    · next hj => rw [hj, hs]
    · rfl

theorem instance?_startAsync (e : Engine) (child : Option InstanceId) (i j : InstanceId)
    (component : Nat) : (e.startAsync child i component).instance? j
      = if j = i then (e.instance? i).map (·.mark component true) else e.instance? j :=
  instance?_markAsync (e.record _) i j component true

theorem instance?_clearAsync (e : Engine) (child : Option InstanceId) (i j : InstanceId)
    (component : Nat) : (e.clearAsync child i component).instance? j
      = if j = i then (e.instance? i).map (·.mark component false) else e.instance? j :=
  instance?_markAsync (e.record _) i j component false

theorem queue_markAsync (e : Engine) (i : InstanceId) (component : Nat) (waits : Bool) :
    (e.markAsync i component waits).queue = e.queue := by
  unfold markAsync
  split
  · rfl
  · split <;> rfl

theorem executing_markAsync (e : Engine) (i : InstanceId) (component : Nat) (waits : Bool) :
    (e.markAsync i component waits).executing = e.executing := by
  unfold markAsync
  split
  · rfl
  · split <;> rfl

/-- A component no longer waits after its mark was taken away; all others are as before. -/
theorem marked_clearAsync (e : Engine) (child : Option InstanceId) (i j : InstanceId)
    (component c : Nat) :
    (e.clearAsync child i component).Marked j c
      ↔ e.Marked j c ∧ ¬ (j = i ∧ c = component) := by
  unfold Marked
  rw [instance?_clearAsync]
  by_cases hj : j = i
  · subst hj
    rw [if_pos rfl]
    cases hs : e.instance? j with
    | none => simp
    | some s =>
      by_cases hc : c = component
      · by_cases hlt : c < s.async.size
        · simp [Instance.isAsync_mark, hc, hc ▸ hlt]
        · have hle := Instance.isAsync_eq_false_of_le (Nat.le_of_not_lt hlt)
          simp [Instance.isAsync_mark, hc, hc ▸ hlt, hc ▸ hle]
      · simp [Instance.isAsync_mark, hc]
  · simp [hj]

/-- Marks do not change who called whom. -/
theorem wasCalled_markAsync (e : Engine) (j : InstanceId) (component : Nat) (waits : Bool)
    (k i : InstanceId) (c : Nat) :
    (e.markAsync j component waits).WasCalled k i c ↔ e.WasCalled k i c := by
  unfold WasCalled
  rw [instance?_markAsync]
  split
  · next hk =>
    subst hk
    cases e.instance? k with
    | none => simp
    | some s => simp [Instance.parent_mark]
  · rfl

theorem wasCalled_startAsync (e : Engine) (child : Option InstanceId) (j : InstanceId)
    (component : Nat) (k i : InstanceId) (c : Nat) :
    (e.startAsync child j component).WasCalled k i c ↔ e.WasCalled k i c :=
  wasCalled_markAsync (e.record _) j component true k i c

theorem wasCalled_clearAsync (e : Engine) (child : Option InstanceId) (j : InstanceId)
    (component : Nat) (k i : InstanceId) (c : Nat) :
    (e.clearAsync child j component).WasCalled k i c ↔ e.WasCalled k i c :=
  wasCalled_markAsync (e.record _) j component false k i c

/-! ## 3. Idle instances -/

/-- **Nothing but waiting components keeps the instance**: it was called, no task of it is queued,
    and no progress is left but that of loops. -/
def IsIdle (e : Engine) (i : InstanceId) : Prop :=
  ∃ s, e.instance? i = some s ∧ s.isAction = true ∧ e.queue.hasTasksOf i = false
    ∧ ∀ p ∈ s.progress, p.any Progress.keepsAlive = false

/-- Nothing can run any more in an idle instance where no component waits. -/
theorem isCollectible_iff {e : Engine}
    (hfits : ∀ i s, e.instance? i = some s → Fits e.definition s) (i : InstanceId) :
    e.isCollectible i = true ↔ e.IsIdle i ∧ ∀ c, ¬ e.Marked i c := by
  unfold isCollectible IsIdle Marked
  cases hs : e.instance? i with
  | none => simp
  | some s =>
    have hcount := Instance.asyncCount_eq_zero_iff (hfits i s hs)
    have hprogress : (s.progress.all fun p => !(p.any Progress.keepsAlive)) = true
        ↔ ∀ p ∈ s.progress, p.any Progress.keepsAlive = false := by
      rw [Array.all_eq_true_iff_forall_mem]
      simp
    simp only [Bool.and_eq_true, beq_iff_eq, Bool.not_eq_true', hcount, hprogress,
      Option.some.injEq, exists_eq_left', Bool.not_eq_true]
    constructor
    · rintro ⟨⟨⟨haction, hmarks⟩, htasks⟩, hall⟩
      exact ⟨⟨haction, htasks, hall⟩, hmarks⟩
    · rintro ⟨⟨haction, htasks, hall⟩, hmarks⟩
      exact ⟨⟨⟨haction, hmarks⟩, htasks⟩, hall⟩

end Engine

end InstrumentFlow
