import InstrumentFlow.Proofs.Engine.Marks
import InstrumentFlow.Proofs.Queue.Told

/-!
# Progress and what it waits for

A component that goes on by itself is in the middle of its work, and a task is queued for it. What
happens outside its own steps leaves it at that as long as it keeps its progress.

* `lastEnd?` -- how the last step of a component ended;
* `Leaves` -- whatever progress is left is the same as before, and so is what it waits for;
* `Destroys.leaves`, `Stroke.leaves_or` -- destructions leave progress, and so do strokes that give
  none;
* `Orderly` -- progress is where it belongs, and what goes on by itself is queued for that;
* `Paces.orderly` -- paces keep it like that.
-/

namespace InstrumentFlow

/-- How a step of a component ended, if the event tells of one. -/
def Event.endOf? (i : InstanceId) (component : Nat) : Event → Option Bool
  | .ended j k midway => if j = i ∧ k = component then some midway else none
  | _ => none

namespace Engine

/-! ## 1. The last step -/

/-- Whether the last step of a component left it in the middle of its work; `none` before the
    first. -/
def lastEnd? (e : Engine) (i : InstanceId) (component : Nat) : Option Bool :=
  e.journal.findSome? (Event.endOf? i component)

theorem lastEnd?_told {e e' : Engine} {news : List Event} (h : Told e e' news)
    {i : InstanceId} {component : Nat} (hn : ∀ event ∈ news, event.endOf? i component = none) :
    e'.lastEnd? i component = e.lastEnd? i component := by
  unfold lastEnd?
  rw [h.journal, List.findSome?_append, List.findSome?_eq_none_iff.mpr hn, Option.none_or]

theorem Tells.lastEnd? {e e' : Engine} (h : Tells e e') (i : InstanceId) (component : Nat) :
    e'.lastEnd? i component = e.lastEnd? i component := by
  obtain ⟨news, ht, hn⟩ := h
  refine lastEnd?_told ht fun event he => ?_
  have hturn := hn event he
  cases event with
  | ended _ _ _ => cases hturn
  | _ => rfl

theorem live_of_progress? {e : Engine} {i : InstanceId} {c : Nat} {p : Progress}
    (h : e.progress? i c = some p) : e.instance? i ≠ none := by
  intro hn
  unfold progress? at h
  rw [hn] at h
  cases h

/-! ## 2. What progress is left -/

/-- Whatever progress is left is the same as before. -/
def Retains (e e' : Engine) : Prop :=
  ∀ i c p, e'.progress? i c = some p → e.progress? i c = some p ∧ e'.kindOf? i c = e.kindOf? i c

theorem Retains.trans {e e' e'' : Engine} (h : Retains e e') (h' : Retains e' e'') :
    Retains e e'' := fun i c p hp =>
  have h₁ := h' i c p hp
  have h₂ := h i c p h₁.1
  ⟨h₂.1, h₁.2.trans h₂.2⟩

theorem Retains.empty {e e' : Engine} (h : Retains e e') {i : InstanceId} {c : Nat}
    (hn : e.progress? i c = none) : e'.progress? i c = none := by
  refine Option.eq_none_iff_forall_ne_some.mpr fun p hp => ?_
  rw [(h i c p hp).1] at hn
  cases hn

/-- **Whatever progress is left is the same as before**, and so is what it waits for. -/
structure Leaves (e e' : Engine) : Prop where
  progress : Retains e e'
  queued : ∀ t ∈ e.queue.tasks, e'.instance? t.instanceId ≠ none → t ∈ e'.queue.tasks
  lastEnd : ∀ i c, e'.lastEnd? i c = e.lastEnd? i c

namespace Leaves

theorem refl (e : Engine) : Leaves e e :=
  ⟨fun _ _ _ h => ⟨h, rfl⟩, fun _ h _ => h, fun _ _ => rfl⟩

/-- From what becomes of each instance. -/
theorem of_instances {e e' : Engine} (hd : e'.definition = e.definition)
    (hs : ∀ i s', e'.instance? i = some s' → (∀ c, s'.progress? c = none)
      ∨ ∃ s, e.instance? i = some s ∧ s'.flow = s.flow ∧ s'.progress = s.progress)
    (hq : ∀ t ∈ e.queue.tasks, e'.instance? t.instanceId ≠ none → t ∈ e'.queue.tasks)
    (hl : ∀ i c, e'.lastEnd? i c = e.lastEnd? i c) : Leaves e e' := by
  refine ⟨fun i c p hp => ?_, hq, hl⟩
  obtain ⟨s', hs', hp'⟩ := Option.bind_eq_some_iff.mp hp
  rcases hs i s' hs' with hnone | ⟨s, hs, hflow, hprogress⟩
  · rw [hnone c] at hp'
    cases hp'
  · constructor
    · unfold Engine.progress?
      rw [hs, Option.bind_some, ← hp']
      unfold Instance.progress?
      rw [hprogress]
    · unfold kindOf? componentOf?
      rw [hs, hs', hd, Option.bind_some, Option.bind_some, hflow]

/-- Instances and queue are as before. -/
theorem of_eq {e e' : Engine} (hd : e'.definition = e.definition) (hf : e'.forest = e.forest)
    (hq : e'.queue = e.queue) (hl : ∀ i c, e'.lastEnd? i c = e.lastEnd? i c) : Leaves e e' := by
  refine of_instances hd (fun i s' hs' => Or.inr ⟨s', ?_, rfl, rfl⟩) (fun t h _ => hq ▸ h) hl
  unfold Engine.instance? at hs' ⊢
  rwa [hf] at hs'

theorem mark (e : Engine) (i : InstanceId) (component : Nat) (waits : Bool) {event : Event}
    (hc : event.isCommon = true) :
    Leaves e ((e.record event).markAsync i component waits) := by
  have hframe := (SameFrame.record e event).trans
    (SameFrame.markAsync (e.record event) i component waits)
  refine of_instances hframe.definition (fun j s' hs' => Or.inr ?_) (fun t h _ => ?_)
    (Tells.lastEnd? ((Tells.record e hc).trans (Tells.markAsync _ i component waits)))
  · rw [instance?_markAsync] at hs'
    change (if j = i then (e.instance? i).map (·.mark component waits) else e.instance? j)
      = some s' at hs'
    split at hs'
    · next hj =>
      obtain ⟨s, hs, rfl⟩ := Option.map_eq_some_iff.mp hs'
      refine ⟨s, hj ▸ hs, ?_⟩
      unfold Instance.mark
      split <;> exact ⟨rfl, rfl⟩
    · exact ⟨s', hs', rfl, rfl⟩
  · rw [queue_markAsync]
    exact h

end Leaves

/-- The tasks of whoever is left stay queued. -/
theorem Destroys.queued {job : Job} {e e' : Engine} (h : Destroys job e e') {t : Task}
    (ht : t ∈ e.queue.tasks) (hl : e'.instance? t.instanceId ≠ none) : t ∈ e'.queue.tasks := by
  have hdiscard {q : TaskQueue} {i : InstanceId} (ht : t ∈ q.tasks) (hi : t.instanceId ≠ i) :
      t ∈ (q.discard i).tasks := List.mem_filter.mpr ⟨ht, bne_iff_ne.mpr hi⟩
  have hbury {e₁ : Engine} {i : InstanceId} {s : Instance} {forest : Forest}
      (hr : (e₁.stripped i).forest.remove i = some (s, forest)) (ht : t ∈ e₁.queue.tasks)
      (hl : ((e₁.stripped i).buried i forest).instance? t.instanceId ≠ none) :
      t ∈ ((e₁.stripped i).buried i forest).queue.tasks := by
    refine hdiscard ((progressOnly_stripped e₁ i).queue_eq ▸ ht) ?_
    rintro rfl
    exact hl (instance?_buried hr)
  induction h with
  | gone _ | nil | unheard _ => exact ht
  | root _ _ hr _ ihk =>
    exact hbury hr (ihk ht fun hn => hl ((Wanes.buried hr).none_of_none hn)) hl
  | called _ _ hr _ hw ihk ihw =>
    have hl₁ := fun hn => hl (hw.wanes.none_of_none hn)
    exact ihw (hbury hr (ihk ht fun hn => hl₁ ((Wanes.buried hr).none_of_none hn)) hl₁) hl
  | again _ _ hn ihk =>
    refine hdiscard (ihk ht hl) ?_
    rintro rfl
    exact hl hn
  | cons _ hks ihk ihks => exact ihks (ihk ht fun hn => hl (hks.wanes.none_of_none hn)) hl
  | heard _ _ =>
    unfold clearAsync
    rw [queue_markAsync]
    exact ht
  | falls _ _ _ ih =>
    refine ih ?_ hl
    unfold clearAsync
    rw [queue_markAsync]
    exact ht

/-- **Destructions leave progress** where the instance is left. -/
theorem Destroys.leaves {job : Job} {e e' : Engine} (h : Destroys job e e') : Leaves e e' := by
  refine .of_instances (SameFrame.destroys h).definition (fun i s' hs' => Or.inr ?_)
    (fun t ht hl => h.queued ht hl) (Tells.destroys h).lastEnd?
  obtain ⟨s, hs, he⟩ := h.wanes.survivors i s' hs'
  exact ⟨s, hs, congrArg (·.flow) he.rest, he.progress_eq⟩

section

variable {closed : Prop} {own : Leeway} {e e' : Engine}

/-- **A stroke leaves progress, or gives it** to a component that may have it. -/
theorem Stroke.leaves_or (h : Stroke closed own e e') :
    Leaves e e' ∨ ∃ i c p, e.MayKeep own i c p ∧ e' = e.setProgress i c (some p) := by
  have hkind := kindOf?_calm h.calm
  have hqueued : ∀ t ∈ e.queue.tasks, t ∈ e'.queue.tasks := by
    intro t ht
    rcases h.queue_cases with hq | ⟨t', _, _, hq⟩
    · rw [hq]
      exact ht
    · rw [hq]
      exact List.mem_append_left _ ht
  have hleaves (hp : ∀ i c p, e'.progress? i c = some p → e.progress? i c = some p) :
      Leaves e e' :=
    ⟨fun i c p h => ⟨hp i c p h, hkind i c⟩, fun t ht _ => hqueued t ht, h.tells.lastEnd?⟩
  rcases h.progress_cases with hsame | ⟨i, c, p, _, hk, rfl⟩
  · exact Or.inl (hleaves fun i c p hp => (hsame i c).symm.trans hp)
  · cases p with
    | some p => exact Or.inr ⟨i, c, p, hk p rfl, rfl⟩
    | none =>
      refine Or.inl (hleaves fun j k p hp => ?_)
      rw [progress?_setProgress] at hp
      split at hp
      · split at hp <;> cases hp
      · exact hp

theorem leaves_begun (hi : Inv closed e) {flow : Nat} {f : Flow}
    {parent : Option (InstanceId × Nat)} {isAction : Bool}
    (hp : ∀ p, parent = some p → e.forest.contains p.1 = true) (ha : isAction = parent.isSome) :
    Leaves e (e.begun flow f parent isAction) := by
  refine .of_instances rfl (fun i s' hs' => ?_) (fun _ h _ => h) ?_
  · rcases instance?_begun_cases hi.sound hp ha hs' with ⟨_, rfl⟩ | ⟨_, s, l, hs, rfl⟩
    · refine Or.inl fun c => ?_
      unfold Instance.progress? freshInstance
      dsimp only
      rw [Array.getElem?_replicate]
      split <;> rfl
    · exact Or.inr ⟨s, hs, rfl, rfl⟩
  · have hset : Tells e { e with
        heap := (freshInstance flow f parent isAction e.heap).2
        forest := (e.forest.insert (freshInstance flow f parent isAction e.heap).1).2 } :=
      .silent rfl rfl id
    exact (hset.tail rfl).lastEnd?

/-- **A pace leaves progress, but for strokes** in its middle. -/
theorem Pace.split (h : Pace closed own e e') (hi : Inv closed e) :
    ∃ e₁ e₂, Leaves e e₁ ∧ e₁.executing = e.executing ∧ Strokes closed own e₁ e₂
      ∧ Leaves e₂ e' := by
  have hleaves {e' : Engine} (hl : Leaves e e') (hx : e'.executing = e.executing) :
      ∃ e₁ e₂, Leaves e e₁ ∧ e₁.executing = e.executing ∧ Strokes closed own e₁ e₂
        ∧ Leaves e₂ e' := ⟨e', e', hl, hx, .refl, .refl e'⟩
  have hcalled {p : InstanceId × Nat} (hl : e.forest.contains p.1 = true) :
      ∀ q, some p = some q → e.forest.contains q.1 = true := by
    rintro q ⟨⟩
    exact hl
  have harisen {flow : Nat} {f : Flow} {parent : Option (InstanceId × Nat)} {isAction : Bool} :
      Strokes closed own (e.begun flow f parent isAction) (e.arisen flow f parent isAction) :=
    strokes_arisen flow f parent isAction
  cases h with
  | stroke h => exact ⟨e, e', .refl e, rfl, .single h, .refl e'⟩
  | await i component =>
    exact hleaves (.mark e i component true rfl) (SameFrame.startAsync e none i component).executing
  | release child i component =>
    exact hleaves (.mark e i component false rfl)
      (SameFrame.clearAsync e child i component).executing
  | @begin flow f _ =>
    have hbegun : Leaves e (e.begun flow f none false) :=
      leaves_begun hi (fun _ h => (nomatch h)) rfl
    exact ⟨_, _, hbegun, rfl, harisen, .refl _⟩
  | @call flow f i component _ hl =>
    exact ⟨_, _, leaves_begun hi (hcalled hl) rfl, rfl, harisen, .mark _ i component true rfl⟩
  | destroy h => exact hleaves h.leaves (SameFrame.destroys h).executing
  | settle _ => exact hleaves (.of_eq rfl rfl rfl (Tells.record e rfl).lastEnd?) rfl
  | stop => exact hleaves (.of_eq rfl rfl rfl fun _ _ => rfl) rfl

/-- Where nobody may get progress, what is left is the same as before. -/
theorem Strokes.retains (h : Strokes closed nobody e e') : Retains e e' := by
  induction h with
  | refl => exact (Leaves.refl e).progress
  | tail _ h ih =>
    rcases h.leaves_or with hl | ⟨i, c, p, hk, _⟩
    · exact ih.trans hl.progress
    · exact nomatch hk.own

theorem Paces.retains (h : Paces closed nobody e e') (hi : Inv closed e) : Retains e e' := by
  induction h with
  | refl => exact (Leaves.refl e).progress
  | tail hs h ih =>
    obtain ⟨e₁, e₂, hl, _, hstrokes, hl'⟩ := h.split (Paces.inv hs hi)
    exact ih.trans (hl.progress.trans (hstrokes.retains.trans hl'.progress))

/-! ## 3. Order -/

/-- **Progress is where it belongs**, and a component that goes on by itself, other than the exempt
    one, was left in the middle of its work and is queued for more. -/
structure Orderly (exempt : Option (InstanceId × Nat)) (e : Engine) : Prop where
  suits : ∀ i c p, e.progress? i c = some p → e.Suits i c p
  waits : ∀ i c p, e.progress? i c = some p → p.goesOn = true → exempt ≠ some (i, c) →
    e.lastEnd? i c = some true ∧ ⟨i, c, true⟩ ∈ e.queue.tasks

variable {x : Option (InstanceId × Nat)}

theorem Leaves.orderly (h : Leaves e e') (ho : e.Orderly x) : e'.Orderly x where
  suits i c p hp := by
    obtain ⟨hp', hkind⟩ := h.progress i c p hp
    exact ⟨(ho.suits i c p hp').1, hkind.trans (ho.suits i c p hp').2⟩
  waits i c p hp hg hx := by
    obtain ⟨hlast, hqueued⟩ := ho.waits i c p (h.progress i c p hp).1 hg hx
    exact ⟨(h.lastEnd i c).trans hlast, h.queued _ hqueued (live_of_progress? hp)⟩

/-- A stroke gives progress that goes on only to the component whose step is running. -/
theorem Stroke.orderly (h : Stroke closed own e e')
    (hx : ∀ pair, e.executing = some pair → x = some pair) (ho : e.Orderly x) :
    e'.Orderly x := by
  rcases h.leaves_or with hl | ⟨i, c, p, hk, rfl⟩
  · exact hl.orderly ho
  have hcalm : Calm e (e.setProgress i c (some p)) :=
    Calm.modifyInstance e i fun s => s.frame_setProgress c (some p)
  have hcases {j : InstanceId} {k : Nat} {q : Progress}
      (hq : (e.setProgress i c (some p)).progress? j k = some q) :
      (j = i ∧ k = c ∧ q = p) ∨ e.progress? j k = some q := by
    rw [progress?_setProgress] at hq
    split at hq
    · next hpair =>
      split at hq
      · exact Or.inl ⟨hpair.1, hpair.2, (Option.some.inj hq).symm⟩
      · cases hq
    · exact Or.inr hq
  refine ⟨fun j k q hq => ?_, fun j k q hq hg hne => ?_⟩
  · refine ⟨?_, (kindOf?_calm hcalm j k).trans ?_⟩
    · rcases hcases hq with ⟨_, _, rfl⟩ | hq
      · exact hk.suits.1
      · exact (ho.suits j k q hq).1
    · rcases hcases hq with ⟨rfl, rfl, rfl⟩ | hq
      · exact hk.suits.2
      · exact (ho.suits j k q hq).2
  · rcases hcases hq with ⟨rfl, rfl, rfl⟩ | hq
    · exact absurd (hx _ (hk.running hg)) hne
    · exact ho.waits j k q hq hg hne

theorem Strokes.orderly (h : Strokes closed own e e')
    (hx : ∀ pair, e.executing = some pair → x = some pair) (ho : e.Orderly x) :
    e'.Orderly x := by
  induction h with
  | refl => exact ho
  | tail hs h ih => exact h.orderly (fun pair hp => hx pair ((Strokes.frame hs).executing ▸ hp)) ih

/-- **Paces keep progress in order**, but for that of the component whose step is running. -/
theorem Paces.orderly (h : Paces closed own e e') (hi : Inv closed e)
    (hx : ∀ pair, e.executing = some pair → x = some pair) (ho : e.Orderly x) :
    e'.Orderly x := by
  induction h with
  | refl => exact ho
  | tail hs h ih =>
    obtain ⟨e₁, e₂, hl, hx₁, hstrokes, hl'⟩ := h.split (Paces.inv hs hi)
    have hx' : ∀ pair, e₁.executing = some pair → x = some pair := fun pair hp =>
      hx pair ((hx₁.trans (Paces.frame hs).executing) ▸ hp)
    exact hl'.orderly (hstrokes.orderly hx' (hl.orderly ih))

end

end Engine

end InstrumentFlow
