import InstrumentFlow.Proofs.Lifetime.Guard

/-!
# Callers that fall

Every instance that goes in a destruction lets its caller be told, and a caller that has nothing
left to do falls with it. Which callers fall is settled before the destruction begins: until a called
instance ends, nothing of its caller changes that the decision depends on.

* `Ripe`, `TakesAlong` -- nothing but one call keeps the caller; the end of a call takes it along;
* `Between`, `Destroys.told` -- whenever a called instance goes, its caller is told in between;
* `Destroys.falls_of_takesAlong`, `Destroys.not_marked_of_gone` -- then the caller falls, if it is
  ripe, or else loses the mark of the call;
* `Destroys.unique` -- how a destruction goes is determined by where it starts;
* `freeWithin_eq_free` -- more depth than `free` has changes nothing.
-/

namespace InstrumentFlow.Engine

open Relation (TransGen ReflTransGen)

variable {closed : Prop} {e e' e'' : Engine} {i k p : InstanceId} {c : Nat}

/-! ## 1. Ripe callers -/

/-- Nothing keeps the instance but its component `c`, which waits for a call. -/
def Ripe (e : Engine) (p : InstanceId) (c : Nat) : Prop :=
  e.CanFall p ∧ ∀ c', e.Marked p c' → c' = c

/-- **The end of `k` takes its caller along**: with the mark of the call gone nothing keeps the
    caller. -/
def TakesAlong (e : Engine) (k p : InstanceId) : Prop :=
  ∃ c, e.WasCalled k p c ∧ (e.clearAsync (some k) p c).mayFall p = true

theorem Inv.clearAsync (hi : Inv closed e) (child : Option InstanceId) (p : InstanceId) (c : Nat) :
    Inv closed (e.clearAsync child p c) :=
  (Change.release child p c : Change closed e _).inv hi

theorem mayFall_clearAsync_iff (hi : Inv closed e) (child : Option InstanceId) :
    (e.clearAsync child p c).mayFall p = true ↔ e.Ripe p c := by
  rw [mayFall_iff (hi.clearAsync child p c).fits, canFall_clearAsync, Ripe]
  refine and_congr_right fun _ => forall_congr' fun c' => ?_
  rw [marked_clearAsync, not_and, not_not]
  exact imp_congr_right fun _ => ⟨And.right, fun h => ⟨rfl, h⟩⟩

theorem TakesAlong.isCaller (h : e.TakesAlong k p) : e.forest.IsCaller p k := by
  obtain ⟨c, hw, _⟩ := h
  exact hw.isCaller

/-- Nobody has two callers. -/
theorem WasCalled.unique {p' : InstanceId} {c' : Nat} (h : e.WasCalled k p c)
    (h' : e.WasCalled k p' c') : p' = p ∧ c' = c := by
  obtain ⟨s, hs, hp⟩ := h
  obtain ⟨t, ht, hp'⟩ := h'
  obtain rfl := Option.some.inj (hs.symm.trans ht)
  exact Prod.mk.inj (Option.some.inj (hp'.symm.trans hp))

theorem WasCalled.live (h : e.WasCalled k p c) : e.instance? k ≠ none := by
  obtain ⟨s, hs, _⟩ := h
  rw [hs]
  exact Option.some_ne_none s

namespace Wanes

variable (hw : Wanes e e')
include hw

theorem wasCalled (h : e'.WasCalled k p c) : e.WasCalled k p c := by
  obtain ⟨s', hs', hp⟩ := h
  obtain ⟨s, hs, he⟩ := hw.survivors k s' hs'
  exact ⟨s, hs, he.parent_eq.symm.trans hp⟩

/-- Who is left was called by whoever called it before. -/
theorem wasCalled_of_live (h : e.WasCalled k p c) (hl : e'.instance? k ≠ none) :
    e'.WasCalled k p c := by
  obtain ⟨s', hs'⟩ := Option.ne_none_iff_exists'.mp hl
  obtain ⟨s, hs, he⟩ := hw.survivors k s' hs'
  obtain ⟨t, ht, hp⟩ := h
  obtain rfl := Option.some.inj (hs.symm.trans ht)
  exact ⟨s', hs', he.parent_eq.trans hp⟩

theorem marked (h : e'.Marked p c) : e.Marked p c := by
  obtain ⟨s', hs', hc⟩ := h
  obtain ⟨s, hs, he⟩ := hw.survivors p s' hs'
  exact ⟨s, hs, he.marks c hc⟩

/-- Whether only marks keep an instance does not change while it is left. -/
theorem canFall_iff (hl : e'.instance? p ≠ none) : e'.CanFall p ↔ e.CanFall p := by
  obtain ⟨s', hs'⟩ := Option.ne_none_iff_exists'.mp hl
  obtain ⟨s, hs, he⟩ := hw.survivors p s' hs'
  have haction : s'.isAction = s.isAction := congrArg (·.isAction) he.rest
  unfold CanFall IsIdle isExecuting
  simp only [hs, hs', Option.some.injEq, exists_eq_left', haction, he.progress_eq,
    hw.tasks p s' hs', hw.executing_eq]

theorem ripe (h : e.Ripe p c) (hl : e'.instance? p ≠ none) : e'.Ripe p c :=
  ⟨(hw.canFall_iff hl).mpr h.1, fun c' hc' => h.2 c' (hw.marked hc')⟩

end Wanes

/-! ## 2. What happens in between -/

/-- The states `m` and `m'` lie between `e` and `e'`, in this order, and a part of what happens in
    between leads from one to the other. -/
structure Between (closed : Prop) (job : Job) (e e' m m' : Engine) : Prop where
  before : Losses closed e m
  wanes_before : Wanes e m
  part : Destroys job m m'
  after : Losses closed m' e'
  wanes_after : Wanes m' e'

namespace Between

variable {job : Job} {m m' : Engine}

/-- What lies between two states lies between two that are further apart. -/
theorem widen {e₁ e₂ : Engine} (h : Between closed job e₁ e₂ m m') (hl : Losses closed e e₁)
    (hw : Wanes e e₁) (hl' : Losses closed e₂ e') (hw' : Wanes e₂ e') :
    Between closed job e e' m m' :=
  ⟨hl.trans h.before, hw.trans h.wanes_before, h.part, h.after.trans hl', h.wanes_after.trans hw'⟩

theorem inv (h : Between closed job e e' m m') (hi : Inv closed e) : Inv closed m :=
  h.before.changes.inv hi

end Between

/-- **Whenever a called instance goes, its caller is told in between**, while the caller is still
    there. The induction is on how the destruction went; the instance goes in one of its parts, and
    the part that buries it is followed by the part that tells its caller. -/
theorem Destroys.told {job : Job} (h : Destroys job e e') (hi : Inv closed e)
    (hc : e.WasCalled k p c) (hgone : e'.instance? k = none) :
    ∃ m m', Between closed (.wake k p c) e e' m m' ∧ m.instance? k = none
      ∧ m.instance? p ≠ none := by
  induction h with
  | gone _ | nil | unheard _ => exact absurd hgone hc.live
  | @root e e₁ i s s₁ forest hs hk hr hp ihk =>
    have hi₁ := (hk.changes hi).inv hi
    by_cases hgone₁ : e₁.instance? k = none
    · obtain ⟨m, m', hb, hm⟩ := ihk hi hc hgone₁
      exact ⟨m, m', hb.widen .refl (.refl e) (losses_buried hi hi₁ hs hk hr) (.buried hr), hm⟩
    · obtain rfl : k = i := Classical.byContradiction fun hne =>
        (keeps_buried hr hne).live hgone₁ hgone
      obtain ⟨_, t, ht, hpt⟩ := parent_of_buried hk.wanes hr
      obtain ⟨u, hu, hpu⟩ := hc
      obtain rfl := Option.some.inj (ht.symm.trans hu)
      exact nomatch (hpu.symm.trans hpt).trans hp
  | @called e e₁ e₂ i q b s s₁ forest hs hk hr hp hw ihk ihw =>
    have hi₁ := (hk.changes hi).inv hi
    have hlosses := losses_buried hi hi₁ hs hk hr
    have hi₂ := hlosses.changes.inv hi₁
    by_cases hgone₁ : e₁.instance? k = none
    · obtain ⟨m, m', hb, hm⟩ := ihk hi hc hgone₁
      exact ⟨m, m', hb.widen .refl (.refl e) (hlosses.trans (hw.losses hi₂))
        ((Wanes.buried hr).trans hw.wanes), hm⟩
    have hc₁ := hk.wanes.wasCalled_of_live hc hgone₁
    by_cases hki : k = i
    · subst hki
      obtain ⟨rfl, rfl⟩ := hc₁.unique (wasCalled_of_buried hk.wanes hr hp).1
      obtain ⟨t, ht⟩ := hi₁.sound.caller_live _ _ hc₁.isCaller
      have hlive : e₁.instance? q ≠ none := by
        rw [show e₁.instance? q = some t from ht]
        exact Option.some_ne_none t
      refine ⟨_, _, ⟨(hk.losses hi).trans hlosses, hk.wanes.trans (.buried hr), hw, .refl, .refl _⟩,
        instance?_buried hr, (keeps_buried hr (hi₁.sound.caller_ne hc₁.isCaller)).live hlive⟩
    · have hc₂ := (keeps_buried hr hki).wasCalled hc₁
      obtain ⟨m, m', hb, hm⟩ := ihw hi₂ hc₂ hgone
      exact ⟨m, m', hb.widen ((hk.losses hi).trans hlosses) (hk.wanes.trans (.buried hr)) .refl
        (.refl _), hm⟩
  | @again e e₁ i s hs hk hn ihk =>
    have hc₁ := hk.changes hi
    obtain ⟨m, m', hb, hm⟩ := ihk hi hc hgone
    exact ⟨m, m', hb.widen .refl (.refl e) (.single (.echo hn (hc₁.reported hi hs hn)))
      (.echoed hn), hm⟩
  | @cons e e₁ e₂ j ks hk hks ihk ihks =>
    have hi₁ := (hk.changes hi).inv hi
    by_cases hgone₁ : e₁.instance? k = none
    · obtain ⟨m, m', hb, hm⟩ := ihk hi hc hgone₁
      exact ⟨m, m', hb.widen .refl (.refl e) (hks.losses hi₁) hks.wanes, hm⟩
    · obtain ⟨m, m', hb, hm⟩ := ihks hi₁ (hk.wanes.wasCalled_of_live hc hgone₁) hgone
      exact ⟨m, m', hb.widen (hk.losses hi) hk.wanes .refl (.refl _), hm⟩
  | heard _ _ => exact absurd hgone ((live_clearAsync _ _ k _ _).mpr hc.live)
  | @falls e e₁ j q b s hs hf hp ih =>
    have hc₁ := (wasCalled_clearAsync e (some j) q b k p c).mpr hc
    obtain ⟨m, m', hb, hm⟩ := ih (hi.clearAsync _ _ _) hc₁ hgone
    exact ⟨m, m', hb.widen (.single (.release _ _ _)) (.clearAsync _ _ _ _) .refl (.refl _), hm⟩

/-- **A ripe caller falls** with the instance that it called: at a moment in between, when that
    instance is gone, nothing is left to do in the caller, and it is destroyed. -/
theorem Destroys.falls_of_takesAlong {job : Job} (h : Destroys job e e') (hi : Inv closed e)
    (ht : e.TakesAlong k p) (hgone : e'.instance? k = none) :
    ∃ m m', Between closed (.one p) e e' m m' ∧ m.instance? k = none ∧ m.mayFall p = true := by
  obtain ⟨c, hc, hfall⟩ := ht
  have hripe := (mayFall_clearAsync_iff hi (some k)).mp hfall
  obtain ⟨m, m', hb, hk, hp⟩ := h.told hi hc hgone
  have him := hb.inv hi
  have hmay : (m.clearAsync (some k) p c).mayFall p = true :=
    (mayFall_clearAsync_iff him (some k)).mpr (hb.wanes_before.ripe hripe hp)
  cases hb.part with
  | unheard hn => exact absurd hn hp
  | heard _ hf => exact nomatch hf.symm.trans hmay
  | falls hs hf hpart =>
    refine ⟨_, _, ⟨hb.before.tail (.release _ _ _), hb.wanes_before.trans (.clearAsync _ _ _ _),
      hpart, hb.after, hb.wanes_after⟩, ?_, hf⟩
    exact Classical.byContradiction fun hn => (live_clearAsync m _ k p c).mp hn hk

/-- The mark of a call goes with the instance that was called. -/
theorem Destroys.not_marked_of_gone {job : Job} (h : Destroys job e e') (hi : Inv closed e)
    (hc : e.WasCalled k p c) (hgone : e'.instance? k = none) : ¬ e'.Marked p c := by
  obtain ⟨m, m', hb, _, hp⟩ := h.told hi hc hgone
  intro hmark
  have hmark' := hb.wanes_after.marked hmark
  cases hb.part with
  | unheard hn => exact hp hn
  | heard _ _ => exact ((marked_clearAsync m _ p p c c).mp hmark').2 ⟨rfl, rfl⟩
  | falls _ _ hpart =>
    obtain ⟨t, ht, _⟩ := hmark'
    exact nomatch ht.symm.trans hpart.one_gone

/-! ## 3. How a destruction goes is determined -/

/-- Whoever is buried was there. -/
theorem live_of_buried {s : Instance} {forest : Forest}
    (hr : (e.stripped k).forest.remove k = some (s, forest)) : e.instance? k ≠ none := by
  obtain ⟨⟨t, ht, _⟩, _⟩ := parent_of_buried (.refl e) hr
  rw [ht]
  exact Option.some_ne_none t

/-- **How a destruction goes is determined** by the state in which it starts. -/
theorem Destroys.unique {job : Job} (h : Destroys job e e') (h' : Destroys job e e'') :
    e' = e'' := by
  induction h generalizing e'' with
  | gone hn =>
    cases h' with
    | gone _ => rfl
    | root hs | called hs | again hs => exact nomatch hn.symm.trans hs
  | root hs hk hr hp ihk =>
    cases h' with
    | gone hn => exact nomatch hn.symm.trans hs
    | root hs' hk' hr' hp' =>
      obtain rfl := Option.some.inj (hs.symm.trans hs')
      obtain rfl := ihk hk'
      obtain ⟨_, rfl⟩ := Prod.mk.inj (Option.some.inj (hr.symm.trans hr'))
      rfl
    | called hs' hk' hr' hp' _ =>
      obtain rfl := Option.some.inj (hs.symm.trans hs')
      obtain rfl := ihk hk'
      obtain ⟨rfl, _⟩ := Prod.mk.inj (Option.some.inj (hr.symm.trans hr'))
      exact nomatch hp.symm.trans hp'
    | again hs' hk' hn' =>
      obtain rfl := Option.some.inj (hs.symm.trans hs')
      obtain rfl := ihk hk'
      exact absurd hn' (live_of_buried hr)
  | called hs hk hr hp hw ihk ihw =>
    cases h' with
    | gone hn => exact nomatch hn.symm.trans hs
    | root hs' hk' hr' hp' =>
      obtain rfl := Option.some.inj (hs.symm.trans hs')
      obtain rfl := ihk hk'
      obtain ⟨rfl, _⟩ := Prod.mk.inj (Option.some.inj (hr.symm.trans hr'))
      exact nomatch hp.symm.trans hp'
    | called hs' hk' hr' hp' hw' =>
      obtain rfl := Option.some.inj (hs.symm.trans hs')
      obtain rfl := ihk hk'
      obtain ⟨rfl, rfl⟩ := Prod.mk.inj (Option.some.inj (hr.symm.trans hr'))
      obtain ⟨rfl, rfl⟩ := Prod.mk.inj (Option.some.inj (hp.symm.trans hp'))
      exact ihw hw'
    | again hs' hk' hn' =>
      obtain rfl := Option.some.inj (hs.symm.trans hs')
      obtain rfl := ihk hk'
      exact absurd hn' (live_of_buried hr)
  | again hs hk hn ihk =>
    cases h' with
    | gone hn' => exact nomatch hn'.symm.trans hs
    | root hs' hk' hr' _ | called hs' hk' hr' _ _ =>
      obtain rfl := Option.some.inj (hs.symm.trans hs')
      obtain rfl := ihk hk'
      exact absurd hn (live_of_buried hr')
    | again hs' hk' hn' =>
      obtain rfl := Option.some.inj (hs.symm.trans hs')
      obtain rfl := ihk hk'
      rfl
  | nil =>
    cases h'
    rfl
  | cons hk hks ihk ihks =>
    cases h' with
    | cons hk' hks' =>
      obtain rfl := ihk hk'
      exact ihks hks'
  | unheard hn =>
    cases h' with
    | unheard _ => rfl
    | heard hs | falls hs => exact nomatch hn.symm.trans hs
  | heard hs hf =>
    cases h' with
    | unheard hn => exact nomatch hn.symm.trans hs
    | heard _ _ => rfl
    | falls _ hf' => exact nomatch hf.symm.trans hf'
  | falls hs hf hp ih =>
    cases h' with
    | unheard hn => exact nomatch hn.symm.trans hs
    | heard _ hf' => exact nomatch hf'.symm.trans hf
    | falls _ _ hp' => exact ih hp'

theorem depth_of_freeDepth_le (hi : Inv closed e) (i : InstanceId) {depth : Nat}
    (h : e.freeDepth ≤ depth) : Depth depth e i := by
  intro hlive
  obtain ⟨s, hs⟩ := Option.ne_none_iff_exists'.mp hlive
  have hrank := hi.sound.rank_lt_live hs
  unfold freeDepth at h
  simp only [Nat.mul_add, Nat.add_mul] at h ⊢
  omega

/-- **More depth than `free` has changes nothing**: it never stops a destruction early. -/
theorem freeWithin_eq_free (hi : Inv closed e) (i : InstanceId) {depth : Nat}
    (h : e.freeDepth ≤ depth) : freeWithin depth i e = e.free i :=
  (freeWithin_destroys depth e i hi (depth_of_freeDepth_le hi i h)).unique (free_destroys hi i)

end InstrumentFlow.Engine
