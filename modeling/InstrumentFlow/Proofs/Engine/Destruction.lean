import InstrumentFlow.Proofs.Engine.Errands
import InstrumentFlow.Proofs.Engine.Change
import InstrumentFlow.Proofs.Forest.Descent

/-!
# Destructions

A destruction goes down to the called instances and up again to callers that have nothing left to
do, and it comes back to an instance whose own destruction is still under way. Here it is a relation
without a bound on its depth, so that what it does is shown by induction on how it went.

* `Survives`, `Wanes` -- what a destruction leaves of the instances that it does not reach;
* `bury_of_some`, `bury_of_none` -- what the end of one instance does;
* `Job`, `Destroys` -- the parts of a destruction;
* `Loss`, `Losses` -- changes by which nothing begins;
* `Destroys.wanes`, `Destroys.gone_of`, `Destroys.losses` -- what each part of a destruction does;
* `free_destroys` -- the bound on the depth of `free` suffices.
-/

namespace InstrumentFlow

/-- What is left of an instance: some of its children and some of its marks, and all of the rest. -/
structure Survives (s s' : Instance) : Prop where
  rest : s' = { s with children := s'.children, async := s'.async, asyncCount := s'.asyncCount }
  marks : ∀ c, s'.isAsync c = true → s.isAsync c = true

namespace Survives

theorem refl (s : Instance) : Survives s s := ⟨rfl, fun _ => id⟩

theorem trans {s s' s'' : Instance} (h : Survives s s') (h' : Survives s' s'') :
    Survives s s'' := by
  refine ⟨?_, fun c hc => h.marks c (h'.marks c hc)⟩
  rw [h'.rest, h.rest]

theorem children (s : Instance) (l : List InstanceId) : Survives s { s with children := l } :=
  ⟨rfl, fun _ => id⟩

theorem clear (s : Instance) (component : Nat) : Survives s (s.setAsync component false) := by
  refine ⟨rfl, fun c hc => ?_⟩
  unfold Instance.isAsync Instance.setAsync at hc
  rw [Array.getElem?_setIfInBounds] at hc
  split at hc
  · split at hc <;> cases hc
  · exact hc

section

variable {s s' : Instance} (h : Survives s s')
include h

theorem parent_eq : s'.parent = s.parent := congrArg (·.parent) h.rest

theorem progress_eq : s'.progress = s.progress := congrArg (·.progress) h.rest

theorem caller?_eq : s'.caller? = s.caller? := by
  unfold Instance.caller?
  rw [h.parent_eq]

end

end Survives

namespace Engine

/-! ## 1. Waning -/

/-- **What a destruction leaves**: some of the instances, each with the rest of it and its tasks. -/
structure Wanes (e e' : Engine) : Prop where
  survivors : ∀ i s', e'.instance? i = some s' → ∃ s, e.instance? i = some s ∧ Survives s s'
  tasks : ∀ i s', e'.instance? i = some s' → e'.queue.hasTasksOf i = e.queue.hasTasksOf i
  live_le : e'.forest.live ≤ e.forest.live
  executing_eq : e'.executing = e.executing

namespace Wanes

theorem refl (e : Engine) : Wanes e e :=
  ⟨fun _ s h => ⟨s, h, Survives.refl s⟩, fun _ _ _ => rfl, Nat.le_refl _, rfl⟩

theorem trans {e e' e'' : Engine} (h : Wanes e e') (h' : Wanes e' e'') : Wanes e e'' where
  survivors i s'' hs'' := by
    obtain ⟨s', hs', he'⟩ := h'.survivors i s'' hs''
    obtain ⟨s, hs, he⟩ := h.survivors i s' hs'
    exact ⟨s, hs, he.trans he'⟩
  tasks i s'' hs'' := by
    obtain ⟨s', hs', _⟩ := h'.survivors i s'' hs''
    exact (h'.tasks i s'' hs'').trans (h.tasks i s' hs')
  live_le := Nat.le_trans h'.live_le h.live_le
  executing_eq := h'.executing_eq.trans h.executing_eq

section

variable {e e' : Engine} (h : Wanes e e')
include h

/-- Who is gone stays gone. -/
theorem none_of_none {i : InstanceId} (hn : e.instance? i = none) : e'.instance? i = none := by
  cases hs : e'.instance? i with
  | none => rfl
  | some s' =>
    obtain ⟨s, hs, _⟩ := h.survivors i s' hs
    rw [hn] at hs
    cases hs

theorem isCaller {p k : InstanceId} (hc : e'.forest.IsCaller p k) : e.forest.IsCaller p k := by
  obtain ⟨s', hs', hp⟩ := hc
  obtain ⟨s, hs, he⟩ := h.survivors k s' hs'
  exact ⟨s, hs, he.caller?_eq ▸ hp⟩

theorem rank_le (i : InstanceId) : e'.forest.rank i ≤ e.forest.rank i :=
  Forest.rank_mono (fun _ _ => h.isCaller) i

end

theorem markAsync (e : Engine) (i : InstanceId) (component : Nat) :
    Wanes e (e.markAsync i component false) := by
  unfold Engine.markAsync
  split
  · exact refl e
  next s hs =>
  split
  · refine ⟨fun j t' ht' => ?_, fun _ _ _ => rfl, Nat.le_refl _, rfl⟩
    change (e.modifyInstance i (·.setAsync component false)).instance? j = some t' at ht'
    rw [instance?_modifyInstance] at ht'
    split at ht'
    · next hj =>
      obtain ⟨t, ht, rfl⟩ := Option.map_eq_some_iff.mp ht'
      exact ⟨t, hj ▸ ht, Survives.clear t component⟩
    · exact ⟨t', ht', Survives.refl t'⟩
  · exact refl e

theorem clearAsync (e : Engine) (child : Option InstanceId) (i : InstanceId) (component : Nat) :
    Wanes e (e.clearAsync child i component) := by
  have h := Wanes.markAsync (e.record (.released child i component)) i component
  exact ⟨h.survivors, h.tasks, h.live_le, h.executing_eq⟩

end Wanes

/-- Tasks of others stay when those of an instance are dropped. -/
theorem hasTasksOf_discard (q : TaskQueue) {i j : InstanceId} (h : j ≠ i) :
    (q.discard i).hasTasksOf j = q.hasTasksOf j := by
  unfold TaskQueue.discard TaskQueue.hasTasksOf
  rw [List.any_filter]
  congr 1
  funext t
  by_cases ht : t.instanceId = j
  · simp [ht, h]
  · simp [ht]

/-! ## 2. The end of one instance -/

/-- Only progress of the instance `i` goes away. -/
structure ProgressOnly (i : InstanceId) (e e' : Engine) : Prop where
  calm : Calm e e'
  others : ∀ j, j ≠ i → e'.instance? j = e.instance? j
  queue_eq : e'.queue = e.queue
  executing_eq : e'.executing = e.executing

theorem ProgressOnly.trans {i : InstanceId} {e e' e'' : Engine} (h : ProgressOnly i e e')
    (h' : ProgressOnly i e' e'') : ProgressOnly i e e'' where
  calm := h.calm.trans h'.calm
  others j hj := (h'.others j hj).trans (h.others j hj)
  queue_eq := h'.queue_eq.trans h.queue_eq
  executing_eq := h'.executing_eq.trans h.executing_eq

theorem progressOnly_release (e : Engine) (i : InstanceId) (component : Nat) :
    ProgressOnly i e (e.releaseProgress i component) := by
  unfold releaseProgress
  split
  · have hset : Calm e (e.setProgress i component none) :=
      Calm.modifyInstance e i fun s => s.frame_setProgress component none
    exact ⟨hset.trans (Calm.record _ rfl),
      fun j hj => Forest.get?_modify_of_ne hj _, rfl, rfl⟩
  · exact ⟨Calm.refl e, fun _ _ => rfl, rfl, rfl⟩

/-- An instance without its progress. -/
def stripped (e : Engine) (i : InstanceId) : Engine :=
  (((e.instance? i).map Instance.openComponents).getD []).foldl
    (fun e c => e.releaseProgress i c) e

theorem progressOnly_stripped (e : Engine) (i : InstanceId) : ProgressOnly i e (e.stripped i) := by
  unfold stripped
  generalize ((e.instance? i).map Instance.openComponents).getD [] = cs
  induction cs generalizing e with
  | nil => exact ⟨Calm.refl e, fun _ _ => rfl, rfl, rfl⟩
  | cons c cs ih => exact (progressOnly_release e i c).trans (ih _)

theorem strokes_stripped {closed : Prop} {own : Leeway} {e₀ e : Engine}
    (h : Strokes closed own e₀ e) {i : InstanceId} (hn : ∀ c, own i c none) :
    Strokes closed own e₀ (e.stripped i) := by
  unfold stripped
  generalize ((e.instance? i).map Instance.openComponents).getD [] = cs
  induction cs generalizing e with
  | nil => exact h
  | cons c cs ih => exact ih (strokes_releaseProgress h (hn c))

/-- A second end of an instance only reports. -/
theorem bury_of_none {e : Engine} {i : InstanceId} (hn : e.instance? i = none) :
    bury i e = (none, e.echoed i) := by
  have hr : e.forest.remove i = none := by
    unfold Forest.remove
    rw [show e.forest.get? i = none from hn]
  unfold bury echoed
  simp only [hn, Option.map_none, Option.getD_none, List.foldl_nil]
  split
  · next hsome =>
    rw [show (e.record (.destroyed i)).forest.remove i = none from hr] at hsome
    cases hsome
  · rfl

/-- The end of a live instance: its progress goes, and it leaves the forest. -/
theorem bury_of_some {e : Engine} {i : InstanceId} {s : Instance} (hs : e.instance? i = some s) :
    ∃ s₁ forest, (e.stripped i).forest.remove i = some (s₁, forest) ∧ s₁.frame = s.frame
      ∧ bury i e = (some s₁, (e.stripped i).buried i forest) := by
  obtain ⟨s₁, hs₁, he⟩ := (progressOnly_stripped e i).calm.forth hs
  have hr : (e.stripped i).forest.remove i
      = some (s₁, ((e.stripped i).forest.vacate i).unlink i (s₁.parent.map (·.1))) := by
    unfold Forest.remove
    rw [show (e.stripped i).forest.get? i = some s₁ from hs₁]
  refine ⟨s₁, _, hr, he, ?_⟩
  unfold bury buried
  dsimp only
  split
  · next hsome =>
    obtain ⟨rfl, rfl⟩ := Prod.mk.inj (Option.some.inj (hsome.symm.trans hr))
    rfl
  · next hnone => exact absurd (hr.symm.trans hnone) (Option.some_ne_none _)

theorem Wanes.echoed {e : Engine} {i : InstanceId} (hn : e.instance? i = none) :
    Wanes e (e.echoed i) where
  survivors _ s h := ⟨s, h, Survives.refl s⟩
  tasks j s h := by
    refine hasTasksOf_discard _ ?_
    rintro rfl
    change e.instance? j = some s at h
    rw [hn] at h
    cases h
  live_le := Nat.le_refl _
  executing_eq := rfl

theorem Wanes.buried {e : Engine} {i : InstanceId} {s : Instance} {forest : Forest}
    (hr : (e.stripped i).forest.remove i = some (s, forest)) :
    Wanes e ((e.stripped i).buried i forest) := by
  have hstrip := progressOnly_stripped e i
  have hcases {j : InstanceId} {t' : Instance} (h : forest.get? j = some t') :
      j ≠ i ∧ ∃ t l, e.instance? j = some t ∧ t' = { t with children := l } := by
    obtain ⟨hj, t, l, ht, he⟩ := Forest.get?_remove_children hr h
    exact ⟨hj, t, l, (hstrip.others j hj).symm.trans ht, he⟩
  refine ⟨fun j t' h => ?_, fun j t' h => ?_, ?_, hstrip.executing_eq⟩
  · obtain ⟨_, t, l, ht, rfl⟩ := hcases h
    exact ⟨t, ht, Survives.children t l⟩
  · change ((e.stripped i).queue.discard i).hasTasksOf j = _
    rw [hstrip.queue_eq]
    exact hasTasksOf_discard _ (hcases h).1
  · obtain ⟨_, rfl⟩ := Forest.remove_eq_some_iff.mp hr
    change (((e.stripped i).forest.vacate i).unlink i s.caller?).live ≤ _
    rw [Forest.live_unlink, ← hstrip.calm.live]
    exact Nat.sub_le _ _

/-- The buried instance is gone. -/
theorem instance?_buried {e : Engine} {i : InstanceId} {s : Instance} {forest : Forest}
    (hr : e.forest.remove i = some (s, forest)) : (e.buried i forest).instance? i = none :=
  Forest.get?_remove_self hr

/-! ## 3. The parts of a destruction -/

/-- A change by which nothing begins. -/
inductive Loss (closed : Prop) (e : Engine) : Engine → Prop
  | touch {e' : Engine} (h : Touch closed e e') : Loss closed e e'
  | release (child : Option InstanceId) (i : InstanceId) (component : Nat) :
      Loss closed e (e.clearAsync child i component)
  | bury {i : InstanceId} {s : Instance} {forest : Forest}
      (hr : e.forest.remove i = some (s, forest)) (hs : s.children = []) :
      Loss closed e (e.buried i forest)
  | echo {i : InstanceId} (hn : e.instance? i = none) (hd : Event.destroyed i ∈ e.journal) :
      Loss closed e (e.echoed i)

/-- Losses in a row. -/
abbrev Losses (closed : Prop) : Engine → Engine → Prop := Relation.ReflTransGen (Loss closed)

theorem Loss.change {closed : Prop} {e e' : Engine} (h : Loss closed e e') :
    Change closed e e' := by
  cases h with
  | touch h => exact .touch h
  | release child i component => exact .release child i component
  | bury hr hs => exact .bury hr hs
  | echo hn hd => exact .echo hn hd

theorem Losses.changes {closed : Prop} {e e' : Engine} (h : Losses closed e e') :
    Changes closed e e' := Relation.ReflTransGen.mono (fun _ _ => Loss.change) _ _ h

theorem Touches.losses {closed : Prop} {e e' : Engine} (h : Touches closed e e') :
    Losses closed e e' := Relation.ReflTransGen.mono (fun _ _ => Loss.touch) _ _ h

/-- The parts of a destruction. -/
inductive Job where
  /-- An instance goes. -/
  | one (i : InstanceId)
  /-- Instances go, one after the other. -/
  | all (ks : List InstanceId)
  /-- The component that called an instance is told that it is gone. -/
  | wake (child caller : InstanceId) (component : Nat)

/-- The caller can go too: nothing is left to do in it, and no step of it is running. -/
def mayFall (e : Engine) (i : InstanceId) : Bool := !e.isExecuting i && e.isCollectible i

/-- **How a part of a destruction goes.** -/
inductive Destroys : Job → Engine → Engine → Prop
  /-- The instance is gone already. -/
  | gone {e : Engine} {i : InstanceId} (hn : e.instance? i = none) : Destroys (.one i) e e
  /-- An instance that nobody called goes after its children. -/
  | root {e e₁ : Engine} {i : InstanceId} {s s₁ : Instance} {forest : Forest}
      (hs : e.instance? i = some s) (hk : Destroys (.all s.children) e e₁)
      (hr : (e₁.stripped i).forest.remove i = some (s₁, forest)) (hp : s₁.parent = none) :
      Destroys (.one i) e ((e₁.stripped i).buried i forest)
  /-- An instance that was called goes after its children, and its caller is told. -/
  | called {e e₁ e₂ : Engine} {i p : InstanceId} {c : Nat} {s s₁ : Instance} {forest : Forest}
      (hs : e.instance? i = some s) (hk : Destroys (.all s.children) e e₁)
      (hr : (e₁.stripped i).forest.remove i = some (s₁, forest)) (hp : s₁.parent = some (p, c))
      (hw : Destroys (.wake i p c) ((e₁.stripped i).buried i forest) e₂) :
      Destroys (.one i) e e₂
  /-- The instance went with the last of its children. -/
  | again {e e₁ : Engine} {i : InstanceId} {s : Instance} (hs : e.instance? i = some s)
      (hk : Destroys (.all s.children) e e₁) (hn : e₁.instance? i = none) :
      Destroys (.one i) e (e₁.echoed i)
  | nil {e : Engine} : Destroys (.all []) e e
  | cons {e e₁ e₂ : Engine} {k : InstanceId} {ks : List InstanceId} (hk : Destroys (.one k) e e₁)
      (hks : Destroys (.all ks) e₁ e₂) : Destroys (.all (k :: ks)) e e₂
  /-- The caller is gone. -/
  | unheard {e : Engine} {k p : InstanceId} {c : Nat} (hn : e.instance? p = none) :
      Destroys (.wake k p c) e e
  /-- The caller has something left to do. -/
  | heard {e : Engine} {k p : InstanceId} {c : Nat} {s : Instance} (hs : e.instance? p = some s)
      (hf : (e.clearAsync (some k) p c).mayFall p = false) :
      Destroys (.wake k p c) e (e.clearAsync (some k) p c)
  /-- The caller had nothing else to do and goes too. -/
  | falls {e e₁ : Engine} {k p : InstanceId} {c : Nat} {s : Instance}
      (hs : e.instance? p = some s) (hf : (e.clearAsync (some k) p c).mayFall p = true)
      (hp : Destroys (.one p) (e.clearAsync (some k) p c) e₁) : Destroys (.wake k p c) e e₁

namespace Destroys

/-! ## 4. What a destruction does -/

theorem wanes {job : Job} {e e' : Engine} (h : Destroys job e e') : Wanes e e' := by
  induction h with
  | gone _ => exact Wanes.refl _
  | root _ _ hr _ ihk => exact ihk.trans (Wanes.buried hr)
  | called _ _ hr _ _ ihk ihw => exact ihk.trans ((Wanes.buried hr).trans ihw)
  | again _ _ hn ihk => exact ihk.trans (Wanes.echoed hn)
  | nil => exact Wanes.refl _
  | cons _ _ ihk ihks => exact ihk.trans ihks
  | unheard _ => exact Wanes.refl _
  | heard _ _ => exact Wanes.clearAsync _ _ _ _
  | falls _ _ _ ih => exact (Wanes.clearAsync _ _ _ _).trans ih

/-- Whoever was to go is gone. -/
theorem gone_of {job : Job} {e e' : Engine} (h : Destroys job e e') :
    match job with
    | .one i => e'.instance? i = none
    | .all ks => ∀ k ∈ ks, e'.instance? k = none
    | .wake _ _ _ => True := by
  induction h with
  | gone hn => exact hn
  | root _ _ hr _ _ => exact instance?_buried hr
  | called _ _ hr _ hw _ _ => exact hw.wanes.none_of_none (instance?_buried hr)
  | again _ _ hn _ => exact hn
  | nil => exact fun k hk => (nomatch hk)
  | cons _ hks ihk ihks =>
    intro k hk
    rcases List.mem_cons.mp hk with rfl | hk
    · exact hks.wanes.none_of_none ihk
    · exact ihks k hk
  | unheard _ => trivial
  | heard _ _ => trivial
  | falls _ _ _ _ => trivial

theorem one_gone {i : InstanceId} {e e' : Engine} (h : Destroys (.one i) e e') :
    e'.instance? i = none := h.gone_of

theorem all_gone {ks : List InstanceId} {e e' : Engine} (h : Destroys (.all ks) e e')
    {k : InstanceId} (hk : k ∈ ks) : e'.instance? k = none := h.gone_of k hk

/-- After its children an instance has no children. -/
theorem no_children {e e₁ : Engine} {i : InstanceId} {s t : Instance} (hf : e.forest.Sound)
    (hf₁ : e₁.forest.Sound) (hs : e.instance? i = some s) (hk : Destroys (.all s.children) e e₁)
    (ht : e₁.instance? i = some t) : t.children = [] := by
  refine List.eq_nil_iff_forall_not_mem.mpr fun k hmem => ?_
  have hcall := (hf₁.mem_children i t ht k).mp hmem
  obtain ⟨u, hu⟩ := hcall.live
  have hgone := hk.all_gone ((hf.mem_children i s hs k).mpr (hk.wanes.isCaller hcall))
  rw [show e₁.instance? k = some u from hu] at hgone
  cases hgone

/-- The end of an instance after its children is a row of losses. -/
theorem losses_buried {closed : Prop} {e e₁ : Engine} {i : InstanceId} {s s₁ : Instance}
    {forest : Forest} (hi : Inv closed e) (hi₁ : Inv closed e₁) (hs : e.instance? i = some s)
    (hk : Destroys (.all s.children) e e₁)
    (hr : (e₁.stripped i).forest.remove i = some (s₁, forest)) :
    Losses closed e₁ ((e₁.stripped i).buried i forest) := by
  have hstrokes : Strokes closed nobody e₁ (e₁.stripped i) := strokes_stripped .refl fun _ => rfl
  have hstrip := hstrokes.touches hi₁
  obtain ⟨hs₁, _⟩ := Forest.remove_eq_some_iff.mp hr
  obtain ⟨t, ht, he⟩ := hstrip.calm.back hs₁
  have hnone : s₁.children = [] := by
    rw [Instance.children_of_frame he]
    exact hk.no_children hi.sound hi₁.sound hs ht
  exact hstrip.losses.tail (.bury hr hnone)

theorem changes_buried {closed : Prop} {e e₁ : Engine} {i : InstanceId} {s s₁ : Instance}
    {forest : Forest} (hi : Inv closed e) (hi₁ : Inv closed e₁) (hs : e.instance? i = some s)
    (hk : Destroys (.all s.children) e e₁)
    (hr : (e₁.stripped i).forest.remove i = some (s₁, forest)) :
    Changes closed e₁ ((e₁.stripped i).buried i forest) :=
  (losses_buried hi hi₁ hs hk hr).changes

/-- **A destruction is a row of losses.** -/
theorem losses {closed : Prop} {job : Job} {e e' : Engine} (h : Destroys job e e')
    (hi : Inv closed e) : Losses closed e e' := by
  induction h with
  | gone _ => exact .refl
  | root hs hk hr _ ihk =>
    have hc := ihk hi
    exact hc.trans (losses_buried hi (hc.changes.inv hi) hs hk hr)
  | called hs hk hr _ _ ihk ihw =>
    have hc := ihk hi
    have hb : Losses closed _ _ := hc.trans (losses_buried hi (hc.changes.inv hi) hs hk hr)
    exact hb.trans (ihw (hb.changes.inv hi))
  | again hs _ hn ihk =>
    have hc := ihk hi
    exact hc.tail (.echo hn (hc.changes.reported hi hs hn))
  | nil => exact .refl
  | cons _ _ ihk ihks =>
    have hc := ihk hi
    exact hc.trans (ihks (hc.changes.inv hi))
  | unheard _ => exact .refl
  | heard _ _ => exact .single (.release _ _ _)
  | @falls e _ k p c _ _ _ _ ih =>
    have hc : Losses closed e (e.clearAsync (some k) p c) := .single (.release _ _ _)
    exact hc.trans (ih (hc.changes.inv hi))

theorem changes {closed : Prop} {job : Job} {e e' : Engine} (h : Destroys job e e')
    (hi : Inv closed e) : Changes closed e e' := (h.losses hi).changes

end Destroys

/-! ## 5. The bound on the depth suffices -/

/-- A bound on the depth of the destruction of a live instance: it falls on the way down to the
    instances that were called, and on the way up because one instance less is left. -/
def Depth (depth : Nat) (e : Engine) (i : InstanceId) : Prop :=
  e.instance? i ≠ none → e.forest.live * (e.forest.live + 1) + e.forest.rank i + 1 ≤ depth

theorem Depth.wanes {depth : Nat} {e e' : Engine} {i : InstanceId} (h : Depth depth e i)
    (hw : Wanes e e') : Depth depth e' i := by
  intro hlive
  have hd := h fun hn => hlive (hw.none_of_none hn)
  have hmul := Nat.mul_le_mul hw.live_le (Nat.succ_le_succ hw.live_le)
  have hrank := hw.rank_le i
  simp only [Nat.succ_eq_add_one] at hmul
  omega

/-- A child needs less depth than its caller. -/
theorem Depth.child {depth : Nat} {e : Engine} {i k : InstanceId} (hf : e.forest.Sound)
    (h : Depth (depth + 1) e i) (hk : e.forest.IsCaller i k) : Depth depth e k := by
  intro _
  obtain ⟨s, hs⟩ := hf.caller_live i k hk
  have hd := h (by unfold instance?; rw [hs]; exact Option.some_ne_none s)
  have hrank := hf.rank_lt_of_isCaller hk
  omega

/-- After an end every instance needs less depth. -/
theorem Depth.after {depth : Nat} {e e' : Engine} {i p : InstanceId} (h : Depth (depth + 1) e i)
    (hi : e.instance? i ≠ none) (hf : e'.forest.Sound) (hl : e'.forest.live + 1 ≤ e.forest.live) :
    Depth depth e' p := by
  intro hlive
  obtain ⟨t, ht⟩ := Option.ne_none_iff_exists'.mp hlive
  have hd := h hi
  have hrank := hf.rank_lt_live ht
  have hmul := Nat.mul_le_mul hl (Nat.le_succ_of_le hl)
  simp only [Nat.succ_eq_add_one, Nat.mul_add, Nat.add_mul, Nat.mul_one, Nat.one_mul] at *
  omega

/-- Freeing the children of an instance, one after the other. -/
theorem foldl_destroys {closed : Prop} {depth : Nat}
    (ih : ∀ e i, Inv closed e → Depth depth e i → Destroys (.one i) e (freeWithin depth i e))
    (ks : List InstanceId) {e : Engine} (hi : Inv closed e) (hd : ∀ k ∈ ks, Depth depth e k) :
    Destroys (.all ks) e (ks.foldl (fun e k => freeWithin depth k e) e) := by
  induction ks generalizing e with
  | nil => exact .nil
  | cons k ks ihks =>
    have hk := ih e k hi (hd k List.mem_cons_self)
    exact .cons hk (ihks ((hk.changes hi).inv hi) fun k' hk' =>
      (hd k' (List.mem_cons_of_mem k hk')).wanes hk.wanes)

/-- **A bounded destruction goes like one without a bound**, if its depth suffices. -/
theorem freeWithin_destroys {closed : Prop} (depth : Nat) :
    ∀ (e : Engine) (i : InstanceId), Inv closed e → Depth depth e i →
      Destroys (.one i) e (freeWithin depth i e) := by
  induction depth with
  | zero =>
    intro e i hi hd
    refine .gone (Classical.byContradiction fun hlive => ?_)
    have := hd hlive
    omega
  | succ depth ih =>
    intro e i hi hd
    unfold freeWithin
    cases hs : e.instance? i with
    | none => exact .gone hs
    | some s =>
      have hk := foldl_destroys ih s.children hi fun k hk =>
        hd.child hi.sound ((hi.sound.mem_children i s hs k).mp hk)
      dsimp only
      generalize s.children.foldl (fun e k => freeWithin depth k e) e = e₁ at hk ⊢
      have hi₁ := (hk.changes hi).inv hi
      cases hs₁ : e₁.instance? i with
      | none =>
        rw [bury_of_none hs₁]
        exact .again hs hk hs₁
      | some t =>
        obtain ⟨s₁, forest, hr, he, hb⟩ := bury_of_some hs₁
        rw [hb]
        have hi₂ := (Destroys.changes_buried hi hi₁ hs hk hr).inv hi₁
        have haction : s₁.isAction = s₁.parent.isSome := by
          rw [Instance.isAction_of_frame he, Instance.parent_of_frame he]
          exact hi₁.sound.isAction_eq i t hs₁
        dsimp only
        cases hp : s₁.parent with
        | none =>
          rw [hp] at haction
          rw [haction]
          exact .root hs hk hr hp
        | some q =>
          obtain ⟨p, c⟩ := q
          rw [hp] at haction
          rw [haction]
          refine .called hs hk hr hp ?_
          have hlive : ((e₁.stripped i).buried i forest).forest.live + 1 ≤ e.forest.live := by
            have hsound := ((progressOnly_stripped e₁ i).calm.sound hi₁.sound)
            have hl := hsound.live_remove hr
            have hle := hk.wanes.live_le
            rw [(progressOnly_stripped e₁ i).calm.live] at hl
            show forest.live + 1 ≤ _
            omega
          have hne : e.instance? i ≠ none := by
            rw [hs]
            exact Option.some_ne_none s
          show Destroys (.wake i p c) _ (endAsyncWith (freeWithin depth) (some i) p c _)
          generalize (e₁.stripped i).buried i forest = e₂ at hi₂ hlive
          unfold endAsyncWith
          cases hp₂ : e₂.instance? p with
          | none => exact .unheard hp₂
          | some u =>
            have hrelease : Change closed e₂ (e₂.clearAsync (some i) p c) := .release _ _ _
            have hi₃ := hrelease.inv hi₂
            have hle : (e₂.clearAsync (some i) p c).forest.live ≤ e₂.forest.live :=
              (Wanes.clearAsync e₂ (some i) p c).live_le
            simp only [Option.isNone_some, Bool.false_eq_true, if_false]
            split
            · next hfall =>
              exact .falls hp₂ hfall (ih _ p hi₃ (hd.after hne hi₃.sound (by omega)))
            · next hfall => exact .heard hp₂ (Bool.eq_false_iff.mpr hfall)

/-- **A destruction of any instance of a sound state goes as far as it should.** -/
theorem free_destroys {closed : Prop} {e : Engine} (hi : Inv closed e) (i : InstanceId) :
    Destroys (.one i) e (e.free i) := by
  refine freeWithin_destroys _ e i hi fun hlive => ?_
  obtain ⟨s, hs⟩ := Option.ne_none_iff_exists'.mp hlive
  have hrank := hi.sound.rank_lt_live hs
  unfold freeDepth
  simp only [Nat.mul_add, Nat.add_mul]
  omega

end Engine

end InstrumentFlow
