import InstrumentFlow.Proofs.Reach.Fall

/-!
# What a destruction leaves

The reach of a destruction is known before it begins: the instance, the callers that fall one after
the other, and whatever is at or below one of them. Everybody else is left, and loses only what
belonged to an instance that went: an entry among the children and the mark of a call.

* `Falls` -- the reach of a destruction;
* `Falls.edge_unique` -- only one instance in reach has a caller out of reach;
* `Destroys.gone_of_falls`, `Destroys.leavesOutside` -- whoever is in reach goes, and nobody else;
* `Thins`, `Destroys.thins` -- lists lose entries and keep their order, and beyond instances, queue
  and journal nothing changes.
-/

namespace InstrumentFlow.Engine

open Relation (TransGen ReflTransGen)

variable {closed : Prop} {e e' e'' : Engine} {i j k p : InstanceId} {c : Nat}

/-! ## 1. The reach of a destruction -/

/-- **The reach of a destruction that starts at `i`**: whoever is at or below `i`, or at or below a
    caller that is taken along. -/
def Falls (e : Engine) (i j : InstanceId) : Prop :=
  ∃ a, ReflTransGen e.TakesAlong i a ∧ ReflTransGen e.forest.IsCaller a j

namespace Falls

theorem self (e : Engine) (i : InstanceId) : e.Falls i i := ⟨i, .refl, .refl⟩

theorem ne_of_outside (h : e.Falls i k) (hj : ¬ e.Falls i j) : j ≠ k := by
  rintro rfl
  exact hj h

theorem child (h : e.Falls i p) (hk : e.forest.IsCaller p k) : e.Falls i k := by
  obtain ⟨a, ha, hp⟩ := h
  exact ⟨a, ha, hp.tail hk⟩

/-- Who has a caller out of reach is taken along itself, and does not take its caller along. -/
theorem edge (h : e.Falls i k) (hp : e.forest.IsCaller p k) (hout : ¬ e.Falls i p) :
    ReflTransGen e.TakesAlong i k ∧ ¬ e.TakesAlong k p := by
  obtain ⟨a, ha, hk⟩ := h
  obtain rfl : a = k := by
    rcases ReflTransGen.cases_tail hk with rfl | ⟨q, hq, hqk⟩
    · rfl
    · obtain rfl | hbelow := caller_of_transGen (.single hqk) hp
      · exact absurd ⟨a, ha, hq⟩ hout
      · exact absurd ⟨a, ha, hq.trans hbelow.to_reflTransGen⟩ hout
  exact ⟨ha, fun htake => hout ⟨p, ha.tail htake, .refl⟩⟩

/-- **Only one instance in reach has a caller out of reach**: of two that are taken along, one takes
    the other along, and its caller first. -/
theorem edge_unique {k' p' : InstanceId} (h : e.Falls i k) (hp : e.forest.IsCaller p k)
    (hout : ¬ e.Falls i p) (h' : e.Falls i k') (hp' : e.forest.IsCaller p' k')
    (hout' : ¬ e.Falls i p') : k' = k := by
  have hcaller {a b q : InstanceId} (hb : e.TakesAlong a b) (hq : e.forest.IsCaller q a) :
      b = q := by
    obtain ⟨s, hs, hb⟩ := hb.isCaller
    obtain ⟨t, ht, hq⟩ := hq
    obtain rfl := Option.some.inj (hs.symm.trans ht)
    exact Option.some.inj (hb.symm.trans hq)
  have hfirst {a b q : InstanceId} (ha : ReflTransGen e.TakesAlong i a)
      (hq : e.forest.IsCaller q a) (hout : ¬ e.Falls i q) (hab : ReflTransGen e.TakesAlong a b) :
      b = a := by
    rcases ReflTransGen.cases_head hab with rfl | ⟨x, hx, _⟩
    · rfl
    · exact absurd ⟨x, ha.tail hx, .refl⟩ (hcaller hx hq ▸ hout)
  obtain ⟨hk, _⟩ := h.edge hp hout
  obtain ⟨hk', _⟩ := h'.edge hp' hout'
  have hright : Relator.RightUnique e.TakesAlong := fun a b b' hb hb' => hcaller hb hb'.isCaller
  rcases ReflTransGen.total_of_right_unique hright hk hk' with hkk' | hk'k
  · exact hfirst hk hp hout hkk'
  · exact (hfirst hk' hp' hout' hk'k).symm

/-- Whoever is in reach is there, if the instance is where the destruction starts. -/
theorem live (hi : Inv closed e) (hl : e.instance? i ≠ none) (h : e.Falls i j) :
    e.instance? j ≠ none := by
  have hsome {f : Forest} {q : InstanceId} (h : ∃ s, f.get? q = some s) : f.get? q ≠ none := by
    obtain ⟨s, hs⟩ := h
    rw [hs]
    exact Option.some_ne_none s
  obtain ⟨a, ha, hj⟩ := h
  have hla : e.instance? a ≠ none := by
    rcases ReflTransGen.cases_tail ha with rfl | ⟨b, _, hb⟩
    · exact hl
    · exact hsome (hi.sound.caller_live a b hb.isCaller)
  rcases ReflTransGen.cases_tail hj with rfl | ⟨b, _, hb⟩
  · exact hla
  · exact hsome hb.live

/-- An instance in reach that is not at or below `i` is at or below a caller of `i` that is taken
    along. -/
theorem cases (h : e.Falls i j) : ReflTransGen e.forest.IsCaller i j
    ∨ ∃ k a, ReflTransGen e.TakesAlong i k ∧ e.TakesAlong k a
        ∧ ReflTransGen e.forest.IsCaller a j := by
  obtain ⟨a, ha, hj⟩ := h
  rcases ReflTransGen.cases_tail ha with rfl | ⟨k, hk, hka⟩
  · exact .inl hj
  · exact .inr ⟨k, a, hk, hka, hj⟩

end Falls

theorem above_of_takesAlong (h : ReflTransGen e.TakesAlong i p) :
    ReflTransGen e.forest.IsCaller p i := by
  induction h with
  | refl => exact .refl
  | tail _ hk ih => exact .head hk.isCaller ih

/-! ## 2. Who goes -/

/-- Who is below somebody that is gone is gone. -/
theorem Wanes.gone_below (hw : Wanes e e') (hf : e'.forest.Sound) (hgone : e'.instance? i = none)
    (hj : ReflTransGen e.forest.IsCaller i j) : e'.instance? j = none := by
  rcases Relation.reflTransGen_iff_eq_or_transGen.mp hj with rfl | hj
  · exact hgone
  refine Classical.byContradiction fun hlive => ?_
  obtain ⟨q, hq, _⟩ := TransGen.head'_iff.mp (transGen_wanes hw hf hj hlive)
  obtain ⟨t, ht⟩ := hf.caller_live _ _ hq
  exact nomatch (show e'.instance? i = some t from ht).symm.trans hgone

/-- **Whoever is in reach goes.** The induction goes up the callers that fall. -/
theorem Destroys.gone_of_falls (h : Destroys (.one i) e e') (hi : Inv closed e)
    (hj : e.Falls i j) : e'.instance? j = none := by
  obtain ⟨a, ha, hj⟩ := hj
  refine h.wanes.gone_below ((h.changes hi).inv hi).sound ?_ hj
  clear hj
  induction ha with
  | refl => exact h.one_gone
  | tail _ hk ih =>
    obtain ⟨m, m', hb, _, _⟩ := h.falls_of_takesAlong hi hk ih
    exact hb.wanes_after.none_of_none hb.part.one_gone

/-! ## 3. Who is left -/

/-- Whoever is out of reach is left, and lost at most the marks of calls that are over. -/
structure LeavesOutside (e : Engine) (i : InstanceId) (m : Engine) : Prop where
  wanes : Wanes e m
  live : ∀ j, ¬ e.Falls i j → e.instance? j ≠ none → m.instance? j ≠ none
  marked : ∀ j c, ¬ e.Falls i j → e.Marked j c →
    m.Marked j c ∨ ∃ k, e.Falls i k ∧ e.WasCalled k j c

/-- The parts of a destruction that concern instances in reach only. -/
def InReach (e : Engine) (i : InstanceId) : Job → Prop
  | .one k => e.Falls i k
  | .all ks => ∀ k ∈ ks, e.Falls i k
  | .wake k p c => e.Falls i k ∧ e.WasCalled k p c

namespace LeavesOutside

variable {m : Engine} (h : LeavesOutside e i m)
include h

/-- The end of an instance in reach. -/
theorem buried {s : Instance} {forest : Forest} (hk : e.Falls i k)
    (hr : (m.stripped k).forest.remove k = some (s, forest)) :
    LeavesOutside e i ((m.stripped k).buried k forest) where
  wanes := h.wanes.trans (.buried hr)
  live j hj hl := (keeps_buried hr (hk.ne_of_outside hj)).live (h.live j hj hl)
  marked j c hj hm := (h.marked j c hj hm).imp_left (keeps_buried hr (hk.ne_of_outside hj)).marked

/-- Being told that a call is over. -/
theorem cleared (child : Option InstanceId) (hk : e.Falls i k) (hc : e.WasCalled k p c) :
    LeavesOutside e i (m.clearAsync child p c) where
  wanes := h.wanes.trans (.clearAsync _ _ _ _)
  live j hj hl := (live_clearAsync m child j p c).mpr (h.live j hj hl)
  marked j c' hj hm := by
    rcases h.marked j c' hj hm with hm | hover
    · by_cases he : j = p ∧ c' = c
      · obtain ⟨rfl, rfl⟩ := he
        exact .inr ⟨k, hk, hc⟩
      · exact .inl ((marked_clearAsync m child p j c c').mpr ⟨hm, he⟩)
    · exact .inr hover

/-- The children of an instance in reach are in reach. -/
theorem children {s : Instance} (hf : m.forest.Sound) (hk : e.Falls i k)
    (hs : m.instance? k = some s) : e.InReach i (.all s.children) := fun _ hmem =>
  hk.child (h.wanes.isCaller ((hf.mem_children k s hs _).mp hmem))

/-- A caller that falls is in reach: no mark of it went but that of this call. -/
theorem falls_of_mayFall (hi : Inv closed e) (him : Inv closed m) (hk : e.Falls i k)
    (hc : e.WasCalled k p c) (hl : m.instance? p ≠ none)
    (hfall : (m.clearAsync (some k) p c).mayFall p = true) : e.Falls i p := by
  refine Classical.byContradiction fun hout => ?_
  obtain ⟨hcan, hmarks⟩ := (mayFall_clearAsync_iff him (some k)).mp hfall
  refine (hk.edge hc.isCaller hout).2
    ⟨c, hc, (mayFall_clearAsync_iff hi (some k)).mpr ⟨(h.wanes.canFall_iff hl).mp hcan, ?_⟩⟩
  intro c' hmark
  rcases h.marked p c' hout hmark with hmark | ⟨k', hk', hc'⟩
  · exact hmarks c' hmark
  · obtain rfl := hk.edge_unique hc.isCaller hout hk' hc'.isCaller hout
    exact (hc.unique hc').2

end LeavesOutside

/-- **Whoever is out of reach is left.** The induction is on how the destruction went. -/
theorem Destroys.leavesOutside {job : Job} {m m' : Engine} (h : Destroys job m m')
    (hi : Inv closed e) (him : Inv closed m) (hs : LeavesOutside e i m) (hj : e.InReach i job) :
    LeavesOutside e i m' := by
  induction h with
  | gone _ | nil | unheard _ => exact hs
  | root hk hks hr _ ihk =>
    exact (ihk him hs (hs.children him.sound hj hk)).buried hj hr
  | called hk hks hr hp hw ihk ihw =>
    have him₁ := (hks.changes him).inv him
    have him₂ := (changes_buried him him₁ hk hks hr).inv him₁
    have hs₁ := ihk him hs (hs.children him.sound hj hk)
    exact ihw him₂ (hs₁.buried hj hr)
      ⟨hj, hs₁.wanes.wasCalled (wasCalled_of_buried (.refl _) hr hp).1⟩
  | again hk hks hn ihk =>
    have hs₁ := ihk him hs (hs.children him.sound hj hk)
    exact ⟨hs₁.wanes.trans (.echoed hn), hs₁.live, hs₁.marked⟩
  | cons hk hks ihk ihks =>
    exact ihks ((hk.changes him).inv him) (ihk him hs (hj _ List.mem_cons_self))
      fun k' hk' => hj k' (List.mem_cons_of_mem _ hk')
  | heard _ _ => exact hs.cleared _ hj.1 hj.2
  | falls hp hf hfall ih =>
    refine ih (him.clearAsync _ _ _) (hs.cleared _ hj.1 hj.2)
      (hs.falls_of_mayFall hi him hj.1 hj.2 ?_ hf)
    rw [hp]
    exact Option.some_ne_none _

theorem leavesOutside_free (hi : Inv closed e) (i : InstanceId) : LeavesOutside e i (e.free i) :=
  (free_destroys hi i).leavesOutside hi hi ⟨.refl e, fun _ _ => id, fun _ _ _ => .inl⟩
    (Falls.self e i)

/-- **Exactly those in reach go.** -/
theorem gone_iff_falls (hi : Inv closed e) (hl : e.instance? i ≠ none) (j : InstanceId) :
    (e.instance? j ≠ none ∧ (e.free i).instance? j = none) ↔ e.Falls i j := by
  refine ⟨fun ⟨hj, hgone⟩ => ?_, fun h =>
    ⟨h.live hi hl, (free_destroys hi i).gone_of_falls hi h⟩⟩
  exact Classical.byContradiction fun hout => (leavesOutside_free hi i).live j hout hj hgone

/-! ## 4. What lists lose -/

/-- The second list is the first one without some of its entries. -/
def IsFiltered {α : Type} (l l' : List α) : Prop := ∃ keep : α → Bool, l' = l.filter keep

namespace IsFiltered

variable {α : Type} {l l' l'' : List α}

theorem refl (l : List α) : IsFiltered l l :=
  ⟨fun _ => true, (List.filter_eq_self.mpr fun _ _ => rfl).symm⟩

theorem trans (h : IsFiltered l l') (h' : IsFiltered l' l'') : IsFiltered l l'' := by
  obtain ⟨keep, rfl⟩ := h
  obtain ⟨keep', rfl⟩ := h'
  exact ⟨_, List.filter_filter⟩

/-- Which entries are left says what is left. -/
theorem eq_filter {keep : α → Bool} (h : IsFiltered l l')
    (hkeep : ∀ a ∈ l, a ∈ l' ↔ keep a = true) : l' = l.filter keep := by
  obtain ⟨keep', rfl⟩ := h
  refine List.filter_congr fun a ha => Bool.eq_iff_iff.mpr ?_
  rw [← hkeep a ha, List.mem_filter]
  exact ⟨fun h => ⟨ha, h⟩, And.right⟩

end IsFiltered

/-- **Lists lose entries and keep their order**, and besides instances, queue and journal all is as
    before. -/
structure Thins (e e' : Engine) : Prop where
  children : ∀ j s', e'.instance? j = some s' →
    ∃ s, e.instance? j = some s ∧ IsFiltered s.children s'.children
  roots : IsFiltered e.forest.roots e'.forest.roots
  tasks : IsFiltered e.queue.tasks e'.queue.tasks
  capacity : e'.queue.capacity = e.queue.capacity
  rest : e' = { e with forest := e'.forest, queue := e'.queue, journal := e'.journal }

namespace Thins

theorem refl (e : Engine) : Thins e e := ⟨fun _ s hs => ⟨s, hs, .refl _⟩, .refl _, .refl _, rfl, rfl⟩

theorem trans (h : Thins e e') (h' : Thins e' e'') : Thins e e'' where
  children j s'' hs'' := by
    obtain ⟨s', hs', hc'⟩ := h'.children j s'' hs''
    obtain ⟨s, hs, hc⟩ := h.children j s' hs'
    exact ⟨s, hs, hc.trans hc'⟩
  roots := h.roots.trans h'.roots
  tasks := h.tasks.trans h'.tasks
  capacity := h'.capacity.trans h.capacity
  rest := by rw [h'.rest, h.rest]

/-- Changes of instances that leave their children alone. -/
theorem of_children (hc : ∀ j, (e'.instance? j).map Instance.children
      = (e.instance? j).map Instance.children)
    (hr : e'.forest.roots = e.forest.roots) (hq : e'.queue = e.queue)
    (hrest : e' = { e with forest := e'.forest, queue := e'.queue, journal := e'.journal }) :
    Thins e e' where
  children j s' hs' := by
    have hj := hc j
    rw [hs'] at hj
    obtain ⟨s, hs, he⟩ := Option.map_eq_some_iff.mp hj.symm
    exact ⟨s, hs, he ▸ .refl _⟩
  roots := hr ▸ .refl _
  tasks := hq ▸ .refl _
  capacity := congrArg (·.capacity) hq
  rest := hrest

theorem modifyInstance (e : Engine) (i : InstanceId) (change : Instance → Instance)
    (hc : ∀ s, (change s).children = s.children) : Thins e (e.modifyInstance i change) := by
  refine of_children (fun j => ?_) (Forest.roots_modify ..) rfl rfl
  rw [instance?_modifyInstance]
  split
  · next hj =>
    rw [Option.map_map, hj]
    exact congrArg (fun f => (e.instance? i).map f) (funext hc)
  · rfl

theorem record (e : Engine) (event : Event) : Thins e (e.record event) :=
  of_children (fun _ => rfl) rfl rfl rfl

theorem clearAsync (e : Engine) (child : Option InstanceId) (i : InstanceId) (component : Nat) :
    Thins e (e.clearAsync child i component) := by
  refine (record e (.released child i component)).trans ?_
  unfold Engine.clearAsync markAsync
  split
  · exact refl _
  split
  · exact (modifyInstance _ i (·.setAsync component false) fun s => rfl).trans
      (record _ _)
  · exact refl _

theorem releaseProgress (e : Engine) (i : InstanceId) (component : Nat) :
    Thins e (e.releaseProgress i component) := by
  unfold Engine.releaseProgress
  split
  · exact (modifyInstance e i (·.setProgress component none) fun s => rfl).trans
      (record _ _)
  · exact refl e

theorem stripped (e : Engine) (i : InstanceId) : Thins e (e.stripped i) := by
  unfold Engine.stripped
  generalize ((e.instance? i).map Instance.openComponents).getD [] = cs
  induction cs generalizing e with
  | nil => exact refl e
  | cons c cs ih => exact (releaseProgress e i c).trans (ih _)

theorem echoed (e : Engine) (i : InstanceId) : Thins e (e.echoed i) :=
  ⟨fun _ s hs => ⟨s, hs, .refl _⟩, .refl _, ⟨_, rfl⟩, rfl, rfl⟩

theorem buried {s : Instance} {forest : Forest} (hf : e.forest.Sound)
    (hr : (e.stripped i).forest.remove i = some (s, forest)) :
    Thins e ((e.stripped i).buried i forest) := by
  have hsound := (progressOnly_stripped e i).calm.sound hf
  refine (stripped e i).trans ⟨fun j t' ht' => ?_, ?_, ⟨_, rfl⟩, rfl, rfl⟩
  · obtain ⟨_, t, ht, _, _, hc⟩ := Forest.get?_remove_cases hr ht'
    refine ⟨t, ht, ?_⟩
    rw [hc]
    split
    · exact ⟨_, rfl⟩
    · exact .refl _
  · change IsFiltered _ forest.roots
    rw [Forest.roots_remove hsound hr]
    split
    · exact ⟨_, rfl⟩
    · exact .refl _

end Thins

theorem Destroys.thins {job : Job} (h : Destroys job e e') (hi : Inv closed e) : Thins e e' := by
  induction h with
  | gone _ | nil | unheard _ => exact .refl _
  | root hs hk hr _ ihk => exact (ihk hi).trans (.buried ((hk.changes hi).inv hi).sound hr)
  | called hs hk hr _ hw ihk ihw =>
    have hi₁ := (hk.changes hi).inv hi
    have hi₂ := (changes_buried hi hi₁ hs hk hr).inv hi₁
    exact (ihk hi).trans ((Thins.buried hi₁.sound hr).trans (ihw hi₂))
  | again _ _ _ ihk => exact (ihk hi).trans (.echoed _ _)
  | cons hk _ ihk ihks => exact (ihk hi).trans (ihks ((hk.changes hi).inv hi))
  | heard _ _ => exact .clearAsync _ _ _ _
  | falls _ _ _ ih => exact (Thins.clearAsync _ _ _ _).trans (ih (hi.clearAsync _ _ _))

end InstrumentFlow.Engine
