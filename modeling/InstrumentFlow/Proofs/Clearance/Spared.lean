import InstrumentFlow.Proofs.Engine.Pace
import InstrumentFlow.Proofs.Lifetime.Guard

/-!
# Called instances with nothing left to do

A called instance is to go as soon as nothing can run in it any more. Where this is checked later
than it comes true, the instance is spared so long: the one whose step is running, and one that was
only just made.

* `Cleared` -- nobody but those that are spared has nothing left to do;
* `Stroke.cleared` -- a stroke takes nothing away from others than those that are spared;
* `Destroys.cleared` -- a destruction checks whomever it takes a mark from;
* `cleared_freed`, `cleared_endAsync`, `cleared_collect` -- who is checked is no longer to be spared.
-/

namespace InstrumentFlow.Engine

/-! ## 1. Who has nothing left to do -/

/-- **Nobody has nothing left to do** but those that are spared. -/
def Cleared (spared : InstanceId → Prop) (e : Engine) : Prop :=
  ∀ i, e.isCollectible i = true → spared i

/-- Nobody is spared. -/
abbrev unspared : InstanceId → Prop := fun _ => False

/-- The same, read off the progress of the components. -/
theorem isCollectible_iff_progress? {e : Engine} {i : InstanceId} :
    e.isCollectible i = true ↔ ∃ s, e.instance? i = some s ∧ s.isAction = true
      ∧ s.asyncCount = 0 ∧ e.queue.hasTasksOf i = false
      ∧ ∀ c p, e.progress? i c = some p → p.keepsAlive = false := by
  unfold isCollectible progress?
  cases hs : e.instance? i with
  | none => simp
  | some s =>
    have hall : (s.progress.all fun p => !(p.any Progress.keepsAlive)) = true
        ↔ ∀ c p, s.progress? c = some p → p.keepsAlive = false := by
      rw [Array.all_eq_true_iff_forall_mem]
      unfold Instance.progress?
      constructor
      · intro h c p hp
        have hmem := h _ (Array.mem_of_getElem? (Option.join_eq_some_iff.mp hp))
        simpa using hmem
      · intro h p hmem
        obtain ⟨c, hlt, rfl⟩ := Array.mem_iff_getElem.mp hmem
        cases hp : s.progress[c] with
        | none => rfl
        | some q =>
          have hq := h c q (by rw [Array.getElem?_eq_getElem hlt, hp]; rfl)
          simp [hq]
    simp only [Bool.and_eq_true, beq_iff_eq, Bool.not_eq_true', hall, Option.some.injEq,
      exists_eq_left', Option.bind_some, and_assoc]

theorem live_of_isCollectible {e : Engine} {i : InstanceId} (h : e.isCollectible i = true) :
    e.instance? i ≠ none := by
  obtain ⟨s, hs, _⟩ := isCollectible_iff_progress?.mp h
  rw [hs]
  exact Option.some_ne_none s

/-- Only instances that were called are to go by themselves. -/
theorem isAction_of_isCollectible {e : Engine} {i : InstanceId} {s : Instance}
    (h : e.isCollectible i = true) (hs : e.instance? i = some s) : s.isAction = true := by
  obtain ⟨t, ht, haction, _⟩ := isCollectible_iff_progress?.mp h
  rw [hs] at ht
  rw [Option.some.inj ht]
  exact haction

/-- Who keeps all but children has the same left to do. -/
theorem Keeps.isCollectible {i : InstanceId} {e e' : Engine} (h : Keeps i e e') :
    e'.isCollectible i = e.isCollectible i := by
  unfold Engine.isCollectible
  rw [h.tasks_eq]
  cases hs : e.instance? i with
  | none =>
    have hn : e'.instance? i = none := by
      have halone := h.alone_eq
      rw [hs] at halone
      exact Option.map_eq_none_iff.mp halone
    rw [hn]
  | some s =>
    obtain ⟨s', hs', he⟩ := h.forth hs
    rw [hs']
    dsimp only
    rw [show s'.isAction = s.isAction from congrArg (·.isAction) he,
      show s'.asyncCount = s.asyncCount from congrArg (·.asyncCount) he,
      show s'.progress = s.progress from congrArg (·.progress) he]

namespace Cleared

variable {spared spared' : InstanceId → Prop} {e e' : Engine}

theorem mono (h : e.Cleared spared) (hs : ∀ i, spared i → spared' i) : e.Cleared spared' :=
  fun i hi => hs i (h i hi)

/-- What only happens in the journal, to the clock and the like takes nothing away. -/
theorem of_eq (h : e.Cleared spared) (hf : e'.forest = e.forest) (hq : e'.queue = e.queue) :
    e'.Cleared spared := by
  intro i hi
  refine h i ?_
  unfold isCollectible instance? at hi ⊢
  rwa [hf, hq] at hi

/-- Who is gone need not be spared. -/
theorem gone {i : InstanceId} (h : e.Cleared fun j => spared j ∨ j = i)
    (hn : e.instance? i = none) : e.Cleared spared := by
  intro j hj
  refine (h j hj).resolve_right ?_
  rintro rfl
  exact live_of_isCollectible hj hn

/-- Nor need who has something left to do. -/
theorem checked {i : InstanceId} (h : e.Cleared fun j => spared j ∨ j = i)
    (hi : e.isCollectible i = true → spared i) : e.Cleared spared := by
  intro j hj
  rcases h j hj with hs | rfl
  · exact hs
  · exact hi hj

/-- Where all others keep all but children, only one more is to be spared. -/
theorem but {i : InstanceId} (h : e.Cleared spared) (hk : ∀ j, j ≠ i → Keeps j e e') :
    e'.Cleared fun j => spared j ∨ j = i := by
  intro j hj
  by_cases hji : j = i
  · exact Or.inr hji
  · exact Or.inl (h j ((hk j hji).isCollectible ▸ hj))

/-- Who loses a mark is to be spared until it is checked. -/
theorem clearAsync (h : e.Cleared spared) (child : Option InstanceId) (i : InstanceId)
    (component : Nat) : (e.clearAsync child i component).Cleared fun j => spared j ∨ j = i :=
  h.but fun _ hj => keeps_clearAsync e child component hj

end Cleared

/-! ## 2. Strokes -/

/-- Where some progress is, there is a place for it. -/
theorem hasComponent_of_progress? {e : Engine} {i : InstanceId} {c : Nat} {p : Progress}
    (h : e.progress? i c = some p) : e.hasComponent i c = true := by
  unfold progress? at h
  obtain ⟨s, hs, hp⟩ := Option.bind_eq_some_iff.mp h
  unfold Instance.progress? at hp
  obtain ⟨hlt, _⟩ := Array.getElem?_eq_some_iff.mp (Option.join_eq_some_iff.mp hp)
  unfold hasComponent
  rw [hs, Option.any_some]
  exact decide_eq_true hlt

/-- **Only who is spared may lose progress** that keeps it alive. -/
def Leeway.Spares (own : Leeway) (spared : InstanceId → Prop) : Prop :=
  ∀ i c p, own i c p → spared i ∨ p.any Progress.keepsAlive = true

theorem spares_untouched (spared : InstanceId → Prop) : Leeway.Spares untouched spared :=
  fun _ _ _ => False.elim

theorem spares_alone (i : InstanceId) (c : Nat) : Leeway.Spares (alone i c) (· = i) :=
  fun _ _ _ h => Or.inl h.1

section

variable {closed : Prop} {own : Leeway} {spared : InstanceId → Prop} {e e' : Engine}

/-- **A stroke takes nothing away** that keeps an instance that is not spared: tasks only join the
    queue, and progress that keeps it alive stays or makes way for other such progress. -/
theorem Stroke.cleared (h : Stroke closed own e e') (ho : own.Spares spared)
    (hl : e.Cleared spared) : e'.Cleared spared := by
  intro i hi
  by_cases hspared : spared i
  · exact hspared
  refine hl i ?_
  obtain ⟨s', hs', haction, hcount, htasks, hprogress⟩ := isCollectible_iff_progress?.mp hi
  obtain ⟨s, hs, he⟩ := h.calm.back hs'
  refine isCollectible_iff_progress?.mpr ⟨s, hs, ?_, ?_, ?_, fun c p hp => ?_⟩
  · rwa [← Instance.isAction_of_frame he]
  · rwa [← Instance.asyncCount_of_frame he]
  · rcases h.queue_cases with hq | ⟨t, _, _, hq⟩
    · rwa [← hq]
    · unfold TaskQueue.hasTasksOf at htasks ⊢
      rw [hq, List.any_append, Bool.or_eq_false_iff] at htasks
      exact htasks.1
  · rcases h.progress_cases with hsame | ⟨j, component, q, hn, hk, rfl⟩
    · exact hprogress c p ((hsame i c).trans hp)
    · by_cases hpair : i = j ∧ c = component
      · obtain ⟨rfl, rfl⟩ := hpair
        have hset : (e.setProgress i c q).progress? i c = q := by
          rw [progress?_setProgress, if_pos ⟨rfl, rfl⟩, if_pos (hasComponent_of_progress? hp)]
        cases q with
        | none => exact absurd (ho i c none (hn rfl)) (by simp [hspared])
        | some q =>
          have halive := (ho i c _ (hk q rfl).own).resolve_left hspared
          exact absurd (hprogress c q hset) (by simpa using halive)
      · refine hprogress c p ?_
        rw [progress?_setProgress, if_neg hpair]
        exact hp

theorem Strokes.cleared (h : Strokes closed own e e') (ho : own.Spares spared)
    (hl : e.Cleared spared) : e'.Cleared spared := by
  induction h with
  | refl => exact hl
  | tail _ h ih => exact h.cleared ho ih

/-- Nor does an activity that is a row of strokes. -/
theorem upholds_cleared {α : Type} {Q : α → Engine → Prop} {a : Act α}
    (ha : Upholds (Strokes closed own e) Q a e) (ho : own.Spares spared) (hl : e.Cleared spared) :
    Upholds (Cleared spared) (fun _ _ => True) a e :=
  ha.mono (fun _ hs => hs.cleared ho hl) fun _ _ _ _ => trivial

end

/-! ## 3. Marks, beginnings and ends -/

theorem keeps_startAsync (e : Engine) (child : Option InstanceId) {i p : InstanceId} (c : Nat)
    (hi : i ≠ p) : Keeps i e (e.startAsync child p c) where
  alone_eq := by rw [instance?_startAsync, if_neg hi]
  tasks_eq := congrArg (·.hasTasksOf i) (queue_markAsync (e.record _) p c true)
  executing_eq := executing_markAsync (e.record _) p c true

section

variable {closed : Prop} {spared : InstanceId → Prop} {e e' : Engine}

/-- A beginning touches none of the instances that are there, but for their children. -/
theorem keeps_begun (hi : Inv closed e) (flow : Nat) (f : Flow)
    {parent : Option (InstanceId × Nat)} {isAction : Bool}
    (hp : ∀ p, parent = some p → e.forest.contains p.1 = true) (ha : isAction = parent.isSome)
    {j : InstanceId} (hj : j ≠ e.nextId flow f parent isAction) :
    Keeps j e (e.begun flow f parent isAction) := by
  refine ⟨?_, rfl, rfl⟩
  cases hs' : (e.begun flow f parent isAction).instance? j with
  | some s' =>
    rcases instance?_begun_cases hi.sound hp ha hs' with ⟨hnew, _⟩ | ⟨_, s, l, hs, rfl⟩
    · exact absurd hnew hj
    · rw [hs]
      rfl
  | none =>
    cases hs : e.instance? j with
    | none => rfl
    | some s =>
      obtain ⟨t, ht⟩ := Forest.get?_insert_of_some hi.sound.free
        (rooted_freshInstance flow f hp ha e.heap) hs
      exact absurd (hs'.symm.trans ht.1) (fun h => nomatch h)

/-- **After a beginning** and the pings of its components only the new instance is to be spared. -/
theorem Cleared.arisen (hl : e.Cleared spared) (hi : Inv closed e) (flow : Nat) (f : Flow)
    {parent : Option (InstanceId × Nat)} {isAction : Bool}
    (hp : ∀ p, parent = some p → e.forest.contains p.1 = true) (ha : isAction = parent.isSome) :
    (e.arisen flow f parent isAction).Cleared
      fun j => spared j ∨ j = e.nextId flow f parent isAction := by
  have hpings : Strokes False untouched _ (e.arisen flow f parent isAction) :=
    strokes_arisen flow f parent isAction
  exact hpings.cleared (spares_untouched _) (hl.but fun j hj => keeps_begun hi flow f hp ha hj)

/-- **A destruction checks whomever it takes a mark from**, unless a step of it is running. -/
theorem Destroys.cleared {job : Job} (h : Destroys job e e')
    (hx : ∀ i, e.isExecuting i = true → spared i) (hl : e.Cleared spared) :
    e'.Cleared spared := by
  have hexecuting {e e' : Engine} {spared : InstanceId → Prop} (hw : Wanes e e')
      (hx : ∀ i, e.isExecuting i = true → spared i) (i : InstanceId)
      (hi : e'.isExecuting i = true) : spared i := by
    unfold isExecuting at hi hx
    rw [hw.executing_eq] at hi
    exact hx i hi
  have hburied {e : Engine} {spared : InstanceId → Prop} {k : InstanceId} {s : Instance}
      {forest : Forest} (hr : (e.stripped k).forest.remove k = some (s, forest))
      (hl : e.Cleared spared) : ((e.stripped k).buried k forest).Cleared spared :=
    (hl.but fun j hj => keeps_buried hr hj).gone (instance?_buried hr)
  induction h generalizing spared with
  | gone _ | nil | unheard _ => exact hl
  | root _ _ hr _ ihk => exact hburied hr (ihk hx hl)
  | called _ hk hr _ _ ihk ihw =>
    exact ihw (hexecuting (hk.wanes.trans (Wanes.buried hr)) hx) (hburied hr (ihk hx hl))
  | again _ _ hn ihk =>
    exact ((ihk hx hl).but fun j hj => keeps_echoed _ hj).gone hn
  | cons hk _ ihk ihks => exact ihks (hexecuting hk.wanes hx) (ihk hx hl)
  | @heard e k p c s _ hf =>
    have hcleared := hl.clearAsync (some k) p c
    refine hcleared.checked fun hc => ?_
    unfold mayFall at hf
    rw [hc, Bool.and_true, Bool.not_eq_false'] at hf
    exact hexecuting (Wanes.clearAsync e (some k) p c) hx p hf
  | @falls e _ k p c _ _ _ hp ih =>
    have hcleared := hl.clearAsync (some k) p c
    have hx' := hexecuting (Wanes.clearAsync e (some k) p c) hx
    exact (ih (fun j hj => Or.inl (hx' j hj)) hcleared).gone hp.one_gone

/-! ## 4. Checks -/

/-- Freeing an instance leaves nobody behind. -/
theorem cleared_freed (hi : Inv closed e) (i : InstanceId)
    (hx : ∀ j, e.isExecuting j = true → spared j) (hl : e.Cleared fun j => spared j ∨ j = i) :
    (e.free i).Cleared spared := by
  have hfree := free_destroys hi i
  exact (hfree.cleared (fun j hj => Or.inl (hx j hj)) hl).gone hfree.one_gone

/-- The end of a call leaves nobody behind. -/
theorem cleared_endAsync (hi : Inv closed e) (child : Option InstanceId) (i : InstanceId)
    (component : Nat) (hx : ∀ j, e.isExecuting j = true → spared j) (hl : e.Cleared spared) :
    (e.endAsync child i component).Cleared spared := by
  unfold endAsync endAsyncWith
  split
  · exact hl
  have hrelease : Change closed e (e.clearAsync child i component) := .release _ _ _
  have hcleared := hl.clearAsync child i component
  have hx' (j : InstanceId) (hj : (e.clearAsync child i component).isExecuting j = true) :
      spared j := by
    refine hx j ?_
    unfold isExecuting at hj ⊢
    rwa [(Wanes.clearAsync e child i component).executing_eq] at hj
  dsimp only
  split
  · exact cleared_freed (hrelease.inv hi) i hx' hcleared
  · next hfall =>
    refine hcleared.checked fun hc => hx' i ?_
    rw [hc, Bool.and_true, Bool.not_eq_true', Bool.not_eq_false] at hfall
    exact hfall

/-- **An instance that was spared** is to be spared no longer once it is checked. -/
theorem cleared_collect (hi : Inv closed e) (i : InstanceId)
    (hx : ∀ j, e.isExecuting j = true → spared j) (hl : e.Cleared fun j => spared j ∨ j = i) :
    (e.collect i).Cleared spared := by
  unfold collect
  split
  · exact cleared_freed hi i hx hl
  · next hc => exact hl.checked fun h => absurd h hc

end

end InstrumentFlow.Engine
