import InstrumentFlow.Proofs.Engine.Run
import InstrumentFlow.Proofs.Lasting.Unmoved
import InstrumentFlow.Proofs.Lifetime
import InstrumentFlow.Proofs.Reach.Rest
import InstrumentFlow.Proofs.Waiting.Calls

/-!
# The reach of destructions

At every moment of every run the destruction of a live instance comes to an end, though it enters
itself again through the callers that fall. It takes the instance, everything below it, and the
callers that fall one after the other with everything below them; of everything else it takes only
what belonged to an instance that went.

* `FellWith`, `Remains` -- how a caller fell; what is left of an instance;
* `Destroys.no_task_of_gone`, `Destroys.queued_of_gone` -- the tasks of whoever goes, and of whoever
  was gone before;
* `remains_free`, `roots_free`, `queue_free` -- what is left after a destruction;
* `reach_after` -- the reach of every destruction in every run.
-/

namespace InstrumentFlow.Engine

open Relation (TransGen ReflTransGen)

variable {closed : Prop} {e e' : Engine} {i j k : InstanceId}

/-! ## 1. How callers fall and what is left -/

/-- **The caller `a` fell when `k` ended**: at a moment between the two states `k` is gone, and in
    its caller, which was called itself, nothing can run any more and no step is running. -/
structure FellWith (e e' : Engine) (k a : InstanceId) : Prop where
  called : e.forest.IsCaller a k
  isAction : ∃ s, e.instance? a = some s ∧ s.isAction = true
  moment : ∃ m m', Between False (.one a) e e' m m' ∧ m.instance? k = none
    ∧ m.isExecuting a = false ∧ m.isCollectible a = true

/-- **What is left of an instance**: all of it but the entries of children that went, and the marks
    of components that had called one of those who went. -/
structure Remains (e e' : Engine) (j : InstanceId) (s s' : Instance) : Prop where
  rest : s' = { s with children := s'.children, async := s'.async, asyncCount := s'.asyncCount }
  children : s'.children = s.children.filter fun k => (e'.instance? k).isSome
  marks : ∀ c, s'.isAsync c = true ↔
    s.isAsync c = true ∧ ∀ k, e.WasCalled k j c → e'.instance? k ≠ none
  places : s'.async.size = s.async.size
  count : s'.asyncCount = s'.async.count true

theorem Destroys.fellWith {job : Job} (h : Destroys job e e') (hi : Inv False e) {a : InstanceId}
    (ht : e.TakesAlong k a) (hgone : e'.instance? k = none) : FellWith e e' k a := by
  obtain ⟨m, m', hb, hk, hfall⟩ := h.falls_of_takesAlong hi ht hgone
  obtain ⟨⟨_, s', hs', haction, _⟩, _⟩ := (mayFall_iff (hb.inv hi).fits a).mp hfall
  obtain ⟨s, hs, he⟩ := hb.wanes_before.survivors a s' hs'
  obtain ⟨hexec, hcoll⟩ := (Bool.and_eq_true ..).mp hfall
  exact ⟨ht.isCaller, ⟨s, hs, (congrArg (·.isAction) he.rest).symm.trans haction⟩, m, m', hb, hk,
    Bool.not_eq_true' _ ▸ hexec, hcoll⟩

/-! ## 2. Tasks -/

/-- Who went has no tasks left. -/
theorem Destroys.no_task_of_gone {job : Job} (h : Destroys job e e') {t : Task}
    (hl : e.instance? t.instanceId ≠ none) (hgone : e'.instance? t.instanceId = none) :
    t ∉ e'.queue.tasks := by
  have hburied {m : Engine} {k : InstanceId} {s : Instance} {forest : Forest}
      (hr : (m.stripped k).forest.remove k = some (s, forest))
      (hm : m.instance? t.instanceId = none → t ∉ m.queue.tasks)
      (hgone : ((m.stripped k).buried k forest).instance? t.instanceId = none) :
      t ∉ ((m.stripped k).buried k forest).queue.tasks := by
    intro ht
    obtain ⟨ht, hne⟩ := List.mem_filter.mp ht
    rw [(progressOnly_stripped m k).queue_eq] at ht
    refine hm (Classical.byContradiction fun hl => ?_) ht
    exact (keeps_buried hr (bne_iff_ne.mp hne)).live hl hgone
  induction h with
  | gone _ | nil | unheard _ => exact absurd hgone hl
  | root _ _ hr _ ihk => exact hburied hr (ihk hl) hgone
  | @called m m₁ m₂ k p c s s₁ forest _ _ hr _ hw ihk ihw =>
    by_cases hgone' : ((m₁.stripped k).buried k forest).instance? t.instanceId = none
    · exact fun ht => hburied hr (ihk hl) hgone' (hw.mem_queue ht)
    · exact ihw hgone' hgone
  | again _ _ _ ihk => exact fun ht => ihk hl hgone (List.mem_filter.mp ht).1
  | @cons m m₁ m₂ k ks _ hks ihk ihks =>
    by_cases hgone' : m₁.instance? t.instanceId = none
    · exact fun ht => ihk hl hgone' (hks.mem_queue ht)
    · exact ihks hgone' hgone
  | heard _ _ => exact absurd hgone ((live_clearAsync _ _ _ _ _).mpr hl)
  | falls _ _ _ ih => exact ih ((live_clearAsync _ _ _ _ _).mpr hl) hgone

/-- Tasks of whoever was gone before stay queued: nobody is destroyed once more. -/
theorem Destroys.queued_of_gone {job : Job} (h : Destroys job e e') {t : Task}
    (ht : t ∈ e.queue.tasks) (hn : e.instance? t.instanceId = none) : t ∈ e'.queue.tasks := by
  have hdiscard {m m' : Engine} {k : InstanceId} {s : Instance} (hs : m.instance? k = some s)
      (hn : m.instance? t.instanceId = none) (ht : t ∈ m'.queue.tasks) :
      t ∈ (m'.queue.discard k).tasks := by
    refine List.mem_filter.mpr ⟨ht, bne_iff_ne.mpr ?_⟩
    rintro rfl
    exact nomatch hn.symm.trans hs
  have hburied {m m₁ : Engine} {k : InstanceId} {s : Instance} {forest : Forest}
      (hs : m.instance? k = some s) (hn : m.instance? t.instanceId = none)
      (ht : t ∈ m₁.queue.tasks) : t ∈ ((m₁.stripped k).buried k forest).queue.tasks :=
    hdiscard hs hn ((progressOnly_stripped m₁ k).queue_eq ▸ ht)
  have hcleared {m : Engine} {k p : InstanceId} {c : Nat} (ht : t ∈ m.queue.tasks) :
      t ∈ (m.clearAsync (some k) p c).queue.tasks := by
    unfold clearAsync
    rwa [queue_markAsync]
  induction h with
  | gone _ | nil | unheard _ => exact ht
  | root hs _ _ _ ihk => exact hburied hs hn (ihk ht hn)
  | called hs hk hr _ _ ihk ihw =>
    exact ihw (hburied hs hn (ihk ht hn)) ((hk.wanes.trans (.buried hr)).none_of_none hn)
  | again hs _ _ ihk => exact hdiscard hs hn (ihk ht hn)
  | cons hk _ ihk ihks => exact ihks (ihk ht hn) (hk.wanes.none_of_none hn)
  | heard _ _ => exact hcleared ht
  | falls _ _ _ ih => exact ih (hcleared ht) ((Wanes.clearAsync _ _ _ _).none_of_none hn)

/-! ## 3. What is left after a destruction -/

section

variable (hi : Inv closed e) (i : InstanceId)
include hi

/-- **Whoever is left is as before**, but for what belonged to somebody who went. -/
theorem remains_free {s s' : Instance} (hs : e.instance? j = some s)
    (hs' : (e.free i).instance? j = some s') : Remains e (e.free i) j s s' := by
  have hd := free_destroys hi i
  have hi' := (hd.changes hi).inv hi
  have hthins := hd.thins hi
  obtain ⟨t, ht, he⟩ := hd.wanes.survivors j s' hs'
  obtain rfl := Option.some.inj (ht.symm.trans hs)
  have hdef : (e.free i).definition = e.definition := by rw [hthins.rest]
  refine ⟨he.rest, ?_, fun c => ⟨fun hc => ⟨he.marks c hc, fun k hw hgone => ?_⟩, ?_⟩, ?_,
    (hi'.fits j s' hs').asyncCount_eq⟩
  · obtain ⟨u, hu, hfiltered⟩ := hthins.children j s' hs'
    obtain rfl := Option.some.inj (hu.symm.trans hs)
    refine hfiltered.eq_filter fun k hk => ?_
    rw [hi'.sound.mem_children j s' hs', Option.isSome_iff_ne_none]
    obtain ⟨c, hw⟩ : ∃ c, e.WasCalled k j c := by
      obtain ⟨v, hv, hp⟩ := (hi.sound.mem_children j _ hs k).mp hk
      obtain ⟨c, hc⟩ := Instance.caller?_eq_some_iff.mp hp
      exact ⟨c, v, hv, hc⟩
    refine ⟨fun hcall => ?_, fun hl => (hd.wanes.wasCalled_of_live hw hl).isCaller⟩
    obtain ⟨v, hv⟩ := hcall.live
    exact fun hn => nomatch (show (e.free i).instance? k = some v from hv).symm.trans hn
  · exact hd.not_marked_of_gone hi hw hgone ⟨s', hs', hc⟩
  · rintro ⟨hc, hcalls⟩
    have hl : (e.free i).instance? j ≠ none := fun hn => nomatch hn.symm.trans hs'
    have hout : ¬ e.Falls i j := fun hfalls => hl (hd.gone_of_falls hi hfalls)
    rcases (leavesOutside_free hi i).marked j c hout ⟨t, hs, hc⟩ with ⟨u, hu, hc'⟩ | ⟨k, hk, hw⟩
    · obtain rfl := Option.some.inj (hu.symm.trans hs')
      exact hc'
    · exact absurd (hd.gone_of_falls hi hk) (hcalls k hw)
  · obtain ⟨f, hf, _, _, _, hsize⟩ := (hi.fits j _ hs).flow
    obtain ⟨f', hf', _, _, _, hsize'⟩ := (hi'.fits j s' hs').flow
    rw [hdef, show s'.flow = t.flow from congrArg (·.flow) he.rest, hf] at hf'
    rw [hsize, hsize', Option.some.inj hf']

theorem roots_free : (e.free i).forest.roots
    = e.forest.roots.filter fun r => ((e.free i).instance? r).isSome := by
  have hd := free_destroys hi i
  have hi' := (hd.changes hi).inv hi
  refine (hd.thins hi).roots.eq_filter fun r hr => ?_
  obtain ⟨s, hs, hp⟩ := (hi.sound.mem_roots r).mp hr
  rw [hi'.sound.mem_roots, Option.isSome_iff_exists]
  refine ⟨fun ⟨s', hs', _⟩ => ⟨s', hs'⟩, fun ⟨s', hs'⟩ => ⟨s', hs', ?_⟩⟩
  obtain ⟨t, ht, he⟩ := hd.wanes.survivors r s' hs'
  obtain rfl := Option.some.inj (ht.symm.trans hs)
  exact he.parent_eq.trans hp

/-- **The queue is the old one without the tasks of whoever went.** -/
theorem queue_free : (e.free i).queue = { e.queue with
    tasks := e.queue.tasks.filter fun t =>
      (e.instance? t.instanceId).isNone || ((e.free i).instance? t.instanceId).isSome } := by
  have hd := free_destroys hi i
  have hthins := hd.thins hi
  have htasks : (e.free i).queue.tasks = e.queue.tasks.filter fun t =>
      (e.instance? t.instanceId).isNone || ((e.free i).instance? t.instanceId).isSome := by
    refine hthins.tasks.eq_filter fun t ht => ?_
    rw [Bool.or_eq_true, Option.isNone_iff_eq_none, Option.isSome_iff_ne_none]
    refine ⟨fun hleft => ?_, ?_⟩
    · by_contra hnot
      obtain ⟨hl, hgone⟩ := not_or.mp hnot
      exact hd.no_task_of_gone hl (not_not.mp hgone) hleft
    · rintro (hn | hl)
      · exact hd.queued_of_gone ht hn
      · exact hd.queued ht hl
  exact congrArg₂ TaskQueue.mk htasks hthins.capacity

end

/-! ## 4. Every run -/

/-- **The reach of every destruction in every run.** At every moment, mid-step and within another
    destruction as well, the destruction of a live instance `i`
    * comes to an end: it goes like the recursion without a bound, and more depth changes nothing;
    * takes `i` and everything below it;
    * takes of the others only callers above `i`, each at a moment when what it called was gone and
      nothing could run in it, and what is below such callers; altogether exactly those in reach;
    * leaves everybody else as before, but for what belonged to somebody who went, and lets the
      lists, the queue among them, keep their order. -/
theorem reach_after {d : Definition} {config : Config} {dispatcher : Dispatcher} {host : Host}
    {e₀ : Engine} (hb : build d config dispatcher host = .ok e₀) :
    (∀ moves, Moment False e₀ (e₀.after moves))
    ∧ ∀ e i, Moment False e₀ e → e.instance? i ≠ none →
      (Destroys (.one i) e (e.free i)
        ∧ ∀ depth, e.freeDepth ≤ depth → freeWithin depth i e = e.free i)
      ∧ (∀ j, ReflTransGen e.forest.IsCaller i j → (e.free i).instance? j = none)
      ∧ (∀ j, e.instance? j ≠ none → (e.free i).instance? j = none →
          ReflTransGen e.forest.IsCaller i j
          ∨ ∃ k a, TransGen e.forest.IsCaller a i ∧ ReflTransGen e.forest.IsCaller a j
              ∧ FellWith e (e.free i) k a)
      ∧ (∀ j, (e.instance? j ≠ none ∧ (e.free i).instance? j = none) ↔ e.Falls i j)
      ∧ (∀ j s, e.instance? j = some s → ¬ e.Falls i j →
          ∃ s', (e.free i).instance? j = some s' ∧ Remains e (e.free i) j s s')
      ∧ (e.free i).forest.roots
          = e.forest.roots.filter (fun r => ((e.free i).instance? r).isSome)
      ∧ (e.free i).queue = { e.queue with
          tasks := e.queue.tasks.filter fun t =>
            (e.instance? t.instanceId).isNone || ((e.free i).instance? t.instanceId).isSome }
      ∧ e.free i = { e with
          forest := (e.free i).forest
          queue := (e.free i).queue
          journal := (e.free i).journal } := by
  have h₀ : Inv False e₀ := inv_build hb False.elim
  refine ⟨fun moves => ⟨_, course_after h₀ moves False.elim, .refl⟩, fun e i hm hl => ?_⟩
  have hi := hm.inv h₀
  have hd := free_destroys hi i
  have hi' := (hd.changes hi).inv hi
  refine ⟨⟨hd, fun depth hdepth => freeWithin_eq_free hi i hdepth⟩,
    fun j hj => hd.wanes.gone_below hi'.sound hd.one_gone hj, fun j hj hgone => ?_,
    gone_iff_falls hi hl, fun j s hs hout => ?_, roots_free hi i, queue_free hi i,
    (hd.thins hi).rest⟩
  · rcases ((gone_iff_falls hi hl j).mp ⟨hj, hgone⟩).cases with hbelow | ⟨k, a, hk, hka, haj⟩
    · exact .inl hbelow
    · have hgonek : (e.free i).instance? k = none := hd.gone_of_falls hi ⟨k, hk, .refl⟩
      exact .inr ⟨k, a, .head' hka.isCaller (above_of_takesAlong hk), haj,
        hd.fellWith hi hka hgonek⟩
  · have hleft : (e.free i).instance? j ≠ none := (leavesOutside_free hi i).live j hout fun hn =>
      nomatch hn.symm.trans hs
    obtain ⟨s', hs'⟩ := Option.ne_none_iff_exists'.mp hleft
    exact ⟨s', hs', remains_free hi i hs hs'⟩

/-- The state in which the innermost of three nested flows waits to begin. -/
def threefold : Engine :=
  (built nestedDefinition {} .absent {}).after [.order ⟨.startFlow 0, none⟩, .tick none, .tick none]

/-- The end of the innermost instance takes the middle one along, but not the first, which nobody
    called. -/
theorem reach_after_threefold :
    build nestedDefinition {} .absent {} = .ok (built nestedDefinition {} .absent {})
    ∧ Moment False (built nestedDefinition {} .absent {}) threefold
    ∧ threefold.instance? ⟨2, 0⟩ ≠ none
    ∧ threefold.Falls ⟨2, 0⟩ ⟨1, 0⟩ ∧ ¬ threefold.Falls ⟨2, 0⟩ ⟨0, 0⟩ := by
  have hb : build nestedDefinition {} .absent {}
      = .ok (built nestedDefinition {} .absent {}) := rfl
  have hlive (i : InstanceId) (h : (threefold.instance? i).isSome = true) :
      threefold.instance? i ≠ none := Option.isSome_iff_ne_none.mp h
  have hinner := hlive ⟨2, 0⟩ (by decide +kernel)
  have hgone : ((threefold.free ⟨2, 0⟩).instance? ⟨1, 0⟩).isNone = true := by decide +kernel
  have hleft : ((threefold.free ⟨2, 0⟩).instance? ⟨0, 0⟩).isSome = true := by decide +kernel
  obtain ⟨hmoment, hreach⟩ := reach_after hb
  obtain ⟨_, _, _, hiff, _⟩ := hreach threefold ⟨2, 0⟩ (hmoment _) hinner
  refine ⟨hb, hmoment _, hinner, (hiff ⟨1, 0⟩).mp ⟨hlive _ (by decide +kernel),
    Option.isNone_iff_eq_none.mp hgone⟩, fun h => ?_⟩
  exact Option.isSome_iff_ne_none.mp hleft ((hiff ⟨0, 0⟩).mpr h).2

end InstrumentFlow.Engine
