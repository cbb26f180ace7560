import InstrumentFlow.Proofs.Engine.Run
import InstrumentFlow.Proofs.Lifetime.Guard
import InstrumentFlow.Proofs.Queue.Docket
import InstrumentFlow.Proofs.Waiting.Calls

/-!
# Instances that are collected

An instance is collected when nothing can run in it any more. What it called is destroyed with it,
also where that is still at work.

* `Works`, `QuietBelow` -- something can run in an instance, or nothing at or below it;
* `letGo_of_isCollectible` -- whatever a collectible instance called was let go before;
* `Attended`, `Destroys.spares` -- where every call at work is waited for, alone, by the component
  that made it, destructions that start at a quiet instance reach quiet instances only;
* `collectible_after` -- when a collection aborts work, at every moment of every run.
-/

namespace InstrumentFlow.Engine

open Relation (TransGen ReflTransGen)

/-! ## 1. Instances at work -/

/-- **Something can run in the instance**: a task of it is queued, or progress keeps it alive. -/
def Works (e : Engine) (i : InstanceId) : Prop :=
  ∃ s, e.instance? i = some s
    ∧ (e.queue.hasTasksOf i = true ∨ ∃ p ∈ s.progress, p.any Progress.keepsAlive = true)

/-- Nothing can run in the instance and below it. -/
def QuietBelow (e : Engine) (i : InstanceId) : Prop :=
  ∀ j, ReflTransGen e.forest.IsCaller i j → ¬ e.Works j

theorem not_works_of_isIdle {e : Engine} {i : InstanceId} (h : e.IsIdle i) : ¬ e.Works i := by
  obtain ⟨s, hs, _, htasks, hprogress⟩ := h
  rintro ⟨t, ht, hwork⟩
  rw [hs] at ht
  obtain rfl := Option.some.inj ht
  rcases hwork with hwork | ⟨p, hp, hwork⟩
  · rw [htasks] at hwork
    cases hwork
  · rw [hprogress p hp] at hwork
    cases hwork

theorem Works.live {e : Engine} {j : InstanceId} (h : e.Works j) : e.instance? j ≠ none := by
  obtain ⟨s, hs, _⟩ := h
  rw [hs]
  exact Option.some_ne_none s

section

variable {e e' : Engine} (hw : Wanes e e')
include hw

/-- Who is left is at work as before. -/
theorem works_wanes {j : InstanceId} (hlive : e'.instance? j ≠ none) :
    e'.Works j ↔ e.Works j := by
  obtain ⟨s', hs'⟩ := Option.ne_none_iff_exists'.mp hlive
  obtain ⟨s, hs, he⟩ := hw.survivors j s' hs'
  unfold Works
  simp only [hs, hs', Option.some.injEq, exists_eq_left', hw.tasks j s' hs', he.progress_eq]

theorem QuietBelow.wanes {k : InstanceId} (h : e.QuietBelow k) : e'.QuietBelow k := by
  intro j hj hwork
  have hj' := ReflTransGen.mono (fun p q => hw.isCaller) k j hj
  exact h j hj' ((works_wanes hw hwork.live).mp hwork)

end

theorem QuietBelow.child {e : Engine} {i k : InstanceId} (h : e.QuietBelow i)
    (hk : e.forest.IsCaller i k) : e.QuietBelow k := fun j hj => h j (hj.head hk)

theorem IsCaller.wasCalled {e : Engine} {i k : InstanceId} (h : e.forest.IsCaller i k) :
    ∃ c, e.WasCalled k i c := by
  obtain ⟨s, hs, hp⟩ := h
  obtain ⟨c, hc⟩ := Instance.caller?_eq_some_iff.mp hp
  exact ⟨c, s, hs, hc⟩

/-! ## 2. Whatever a collectible instance called was let go -/

/-- **Whatever a collectible instance called was let go before.** -/
theorem letGo_of_isCollectible {closed : Prop} {e : Engine} (hi : Inv closed e)
    (hmarks : e.MarksTold) (hcalls : e.CallsTold) {i : InstanceId}
    (hcoll : e.isCollectible i = true) {k : InstanceId} {c : Nat} (hw : e.WasCalled k i c)
    (hc : e.hasComponent i c = true) : callOf k i c e.lives = .letGo := by
  obtain ⟨⟨s, hs, _⟩, hnone⟩ := (isCollectible_iff hi.fits i).mp hcoll
  have hlt : c < s.async.size := by
    unfold hasComponent at hc
    rw [hs] at hc
    obtain ⟨f, _, _, _, hprogress, hasync⟩ := (hi.fits i s hs).flow
    rw [hasync, ← hprogress]
    simpa using hc
  cases hcall : callOf k i c e.lives with
  | unmade => exact absurd hcall (hcalls k i c hw)
  | awaited =>
    have hmark : s.isAsync c = true := (hmarks i s hs c hlt).trans (waits_of_awaited hcall)
    exact absurd ⟨s, hs, hmark⟩ (hnone c)
  | letGo => rfl

/-- Everything below an instance goes with it. -/
theorem gone_below {closed : Prop} {e e' : Engine} (hi : Inv closed e) {i j : InstanceId}
    (hd : Destroys (.one i) e e') (hj : TransGen e.forest.IsCaller i j) :
    e'.instance? j = none := by
  refine Classical.byContradiction fun hlive => ?_
  have hi' := (hd.changes hi).inv hi
  have hj' := transGen_wanes hd.wanes hi'.sound hj hlive
  obtain ⟨q, hq, _⟩ := TransGen.head'_iff.mp hj'
  obtain ⟨t, ht⟩ := hi'.sound.caller_live _ _ hq
  have hgone := hd.one_gone
  rw [show e'.instance? i = some t from ht] at hgone
  cases hgone

/-! ## 3. Where every call at work is waited for -/

/-- **Every call at work is waited for**: if something can run at or below a called instance, the
    component that called it waits, and for this instance alone. -/
def Attended (e : Engine) : Prop :=
  ∀ k p c, e.WasCalled k p c →
    e.QuietBelow k ∨ e.Marked p c ∧ ∀ k', e.WasCalled k' p c → k' = k

/-- The parts of a destruction that reach quiet instances only. -/
def ReachesQuiet (e : Engine) : Job → Prop
  | .one i => e.QuietBelow i
  | .all ks => ∀ k ∈ ks, e.QuietBelow k
  | .wake _ p c => ∀ k, e.WasCalled k p c → e.QuietBelow k

namespace Attended

/-- An idle instance without waiting components is quiet with everything below it. -/
theorem quietBelow {e : Engine} (h : e.Attended) {i : InstanceId} (hidle : e.IsIdle i)
    (hnone : ∀ c, ¬ e.Marked i c) : e.QuietBelow i := by
  intro j hj
  rcases ReflTransGen.cases_head hj with rfl | ⟨k, hk, hj⟩
  · exact not_works_of_isIdle hidle
  · obtain ⟨c, hw⟩ := IsCaller.wasCalled hk
    rcases h k i c hw with hquiet | ⟨hmark, _⟩
    · exact hquiet j hj
    · exact absurd hmark (hnone c)

theorem echoed {e : Engine} (h : e.Attended) {i : InstanceId} (hn : e.instance? i = none) :
    (e.echoed i).Attended := by
  intro k p c hw
  rcases h k p c hw with hquiet | hmark
  · exact Or.inl (hquiet.wanes (Wanes.echoed hn))
  · exact Or.inr hmark

theorem buried {e : Engine} (h : e.Attended) {i : InstanceId} {s : Instance} {forest : Forest}
    (hf : forest.Sound) (hr : (e.stripped i).forest.remove i = some (s, forest)) :
    ((e.stripped i).buried i forest).Attended := by
  intro k p c hw
  obtain ⟨hw₁, _⟩ := (wasCalled_buried hr k p c).mp hw
  rcases h k p c hw₁ with hquiet | ⟨hmark, hone⟩
  · exact Or.inl (hquiet.wanes (Wanes.buried hr))
  · have hpi : p ≠ i := by
      rintro rfl
      obtain ⟨t, ht⟩ := hf.caller_live _ _ hw.isCaller
      rw [show forest.get? p = none from instance?_buried hr] at ht
      cases ht
    refine Or.inr ⟨(keeps_buried hr hpi).marked hmark, fun k' hw' => ?_⟩
    exact hone k' ((wasCalled_buried hr k' p c).mp hw').1

theorem cleared {e : Engine} (h : e.Attended) (child : Option InstanceId) {p : InstanceId}
    {c : Nat} (hquiet : ∀ k, e.WasCalled k p c → e.QuietBelow k) :
    (e.clearAsync child p c).Attended := by
  intro k p' c' hw
  have hw₁ := (wasCalled_clearAsync e child p c k p' c').mp hw
  by_cases hpc : p' = p ∧ c' = c
  · obtain ⟨rfl, rfl⟩ := hpc
    exact Or.inl ((hquiet k hw₁).wanes (Wanes.clearAsync e child p' c'))
  · rcases h k p' c' hw₁ with hquiet' | ⟨hmark, hone⟩
    · exact Or.inl (hquiet'.wanes (Wanes.clearAsync e child p c))
    · refine Or.inr ⟨(marked_clearAsync e child p p' c c').mpr ⟨hmark, hpc⟩, fun k' hw' => ?_⟩
      exact hone k' ((wasCalled_clearAsync e child p c k' p' c').mp hw')

end Attended

/-- Others work on when an instance ends. -/
theorem Works.buried {e : Engine} {i j : InstanceId} {s : Instance} {forest : Forest}
    (h : e.Works j) (hr : (e.stripped i).forest.remove i = some (s, forest)) (hj : j ≠ i) :
    ((e.stripped i).buried i forest).Works j :=
  (works_wanes (Wanes.buried hr) ((keeps_buried hr hj).live h.live)).mpr h

theorem Works.cleared {e : Engine} {j : InstanceId} (h : e.Works j) (child : Option InstanceId)
    (p : InstanceId) (c : Nat) : (e.clearAsync child p c).Works j :=
  (works_wanes (Wanes.clearAsync e child p c) ((live_clearAsync e child j p c).mpr h.live)).mpr h

/-- **Where every call at work is waited for, destructions spare what works.** -/
theorem Destroys.spares {closed : Prop} {job : Job} {e e' : Engine} (h : Destroys job e e')
    (hi : Inv closed e) (hatt : e.Attended) (hq : e.ReachesQuiet job) :
    e'.Attended ∧ ∀ j, e.Works j → e'.Works j := by
  induction h with
  | gone _ => exact ⟨hatt, fun _ => id⟩
  | @root e e₁ i s s₁ forest hs hk hr hp ihk =>
    have hi₁ := (hk.changes hi).inv hi
    have hi₂ := (changes_buried hi hi₁ hs hk hr).inv hi₁
    obtain ⟨hatt₁, hwork₁⟩ := ihk hi hatt fun k hmem =>
      hq.child ((hi.sound.mem_children i s hs k).mp hmem)
    refine ⟨hatt₁.buried hi₂.sound hr, fun j hj => (hwork₁ j hj).buried hr ?_⟩
    rintro rfl
    exact hq j .refl hj
  | @called e e₁ e₂ i p c s s₁ forest hs hk hr hp hw ihk ihw =>
    have hi₁ := (hk.changes hi).inv hi
    have hi₂ := (changes_buried hi hi₁ hs hk hr).inv hi₁
    obtain ⟨hatt₁, hwork₁⟩ := ihk hi hatt fun k hmem =>
      hq.child ((hi.sound.mem_children i s hs k).mp hmem)
    obtain ⟨hcalled₁, _⟩ := wasCalled_of_buried hk.wanes hr hp
    -- whoever the same component called besides `i` is quiet
    have hothers : ∀ k, ((e₁.stripped i).buried i forest).WasCalled k p c →
        ((e₁.stripped i).buried i forest).QuietBelow k := by
      intro k hwk
      obtain ⟨hwk₁, hne⟩ := (wasCalled_buried hr k p c).mp hwk
      rcases hatt₁ k p c hwk₁ with hquiet | ⟨_, hone⟩
      · exact hquiet.wanes (Wanes.buried hr)
      · exact absurd (hone i hcalled₁).symm hne
    obtain ⟨hatt₂, hwork₂⟩ := ihw hi₂ (hatt₁.buried hi₂.sound hr) hothers
    refine ⟨hatt₂, fun j hj => hwork₂ j ((hwork₁ j hj).buried hr ?_)⟩
    rintro rfl
    exact hq j .refl hj
  | @again e e₁ i s hs hk hn ihk =>
    obtain ⟨hatt₁, hwork₁⟩ := ihk hi hatt fun k hmem =>
      hq.child ((hi.sound.mem_children i s hs k).mp hmem)
    refine ⟨hatt₁.echoed hn, fun j hj => ?_⟩
    have hj₁ := hwork₁ j hj
    exact (works_wanes (Wanes.echoed hn) hj₁.live).mpr hj₁
  | nil => exact ⟨hatt, fun _ => id⟩
  | @cons e e₁ e₂ k ks hk hks ihk ihks =>
    have hi₁ := (hk.changes hi).inv hi
    obtain ⟨hatt₁, hwork₁⟩ := ihk hi hatt (hq k List.mem_cons_self)
    obtain ⟨hatt₂, hwork₂⟩ := ihks hi₁ hatt₁ fun k' hmem =>
      (hq k' (List.mem_cons_of_mem k hmem)).wanes hk.wanes
    exact ⟨hatt₂, fun j hj => hwork₂ j (hwork₁ j hj)⟩
  | unheard _ => exact ⟨hatt, fun _ => id⟩
  | heard _ _ => exact ⟨hatt.cleared _ hq, fun j hj => hj.cleared _ _ _⟩
  | @falls e e₁ k p c s hs hf hone ih =>
    have hchange : Change closed e (e.clearAsync (some k) p c) := .release _ _ _
    have hi₁ := hchange.inv hi
    have hatt₁ := hatt.cleared (some k) hq
    obtain ⟨⟨_, hidle⟩, hnone⟩ := (mayFall_iff hi₁.fits p).mp hf
    obtain ⟨hatt₂, hwork₂⟩ := ih hi₁ hatt₁ (hatt₁.quietBelow hidle hnone)
    exact ⟨hatt₂, fun j hj => hwork₂ j (hj.cleared (some k) p c)⟩

/-! ## 4. Every run -/

/-- **When a collection aborts work.** At every moment of every run, whatever a collectible instance
    called was let go before. Everything below it goes with it, so that work is aborted below it if
    and only if something can run at or below an instance that was let go. And where every call at
    work is waited for, whatever can run is still there after the collection, however far that
    reaches up. -/
theorem collectible_after {d : Definition} {config : Config} {dispatcher : Dispatcher} {host : Host}
    {e₀ : Engine} (hb : build d config dispatcher host = .ok e₀) :
    (∀ moves, Moment False e₀ (e₀.after moves))
    ∧ ∀ e i, Moment False e₀ e → e.isCollectible i = true →
      (∀ k c, e.WasCalled k i c → e.hasComponent i c = true → callOf k i c e.lives = .letGo)
      ∧ (∀ j, TransGen e.forest.IsCaller i j → (e.free i).instance? j = none)
      ∧ ((∃ j, TransGen e.forest.IsCaller i j ∧ e.Works j) ↔
          ∃ k c, e.WasCalled k i c ∧ (e.hasComponent i c = true → callOf k i c e.lives = .letGo)
            ∧ ∃ j, ReflTransGen e.forest.IsCaller k j ∧ e.Works j)
      ∧ (e.Attended → ∀ j, e.Works j → (e.free i).Works j) := by
  have h₀ : Inv False e₀ := inv_build hb False.elim
  have hstart : e₀.MarksTold ∧ e₀.CallsTold := by
    obtain ⟨_, rfl⟩ := build_eq_ok_iff.mp hb
    constructor
    · intro i s hs
      rw [instance?_built] at hs
      cases hs
    · rintro k i c ⟨s, hs, _⟩
      rw [instance?_built] at hs
      cases hs
  refine ⟨fun moves => ⟨_, course_after h₀ moves False.elim, .refl⟩, fun e i hm hcoll => ?_⟩
  have hi := hm.inv h₀
  have hmarks := (hm.changes h₀).marksTold h₀ hstart.1
  have hcalls := hm.callsTold h₀ hstart.2
  obtain ⟨hidle, hnone⟩ := (isCollectible_iff hi.fits i).mp hcoll
  have hletGo {k : InstanceId} {c : Nat} (hw : e.WasCalled k i c) :
      e.hasComponent i c = true → callOf k i c e.lives = .letGo :=
    letGo_of_isCollectible hi hmarks hcalls hcoll hw
  have hdestroys := free_destroys hi i
  refine ⟨fun k c => hletGo, fun j => gone_below hi hdestroys, ⟨?_, ?_⟩, fun hatt => ?_⟩
  · rintro ⟨j, hj, hwork⟩
    obtain ⟨k, hk, hkj⟩ := TransGen.head'_iff.mp hj
    obtain ⟨c, hw⟩ := IsCaller.wasCalled hk
    exact ⟨k, c, hw, hletGo hw, j, hkj, hwork⟩
  · rintro ⟨k, c, hw, _, j, hkj, hwork⟩
    exact ⟨j, TransGen.head' hw.isCaller hkj, hwork⟩
  · exact (hdestroys.spares hi hatt (hatt.quietBelow hidle hnone)).2

/-- A flow that calls another one twice through the same component. -/
def callTwiceDefinition : Definition :=
  { flows :=
      [{ name := "main", components := [{ kind := .callAction, payload := [1, 0] }] },
       { name := "middle", inputFlags := [1]
         components :=
          [{ kind := .start, outputs := [{ isSequence := true, connections := [⟨2, 0, true⟩] }] },
           { kind := .noop, outputs := [{ isSequence := true, connections := [⟨2, 0, true⟩] }] },
           { kind := .callAction, inputs := [0], payload := [2, 0] }] },
       { name := "inner", components := [{ kind := .start }] }] }

/-- The state in which both called instances have their first task queued. -/
def calledTwice : Engine :=
  (built callTwiceDefinition {} .absent {}).after
    [.order ⟨.startFlow 0, none⟩, .tick none, .tick none, .tick none]

/-- The moves by which the host keeps the caller until it is told that both calls are over. -/
def letGoMoves : List Move :=
  [.order ⟨.startFlow 0, none⟩, .tick none, .tick none, .tick none,
    .order ⟨.setHostState ⟨1, 0⟩ 0 (some 5), none⟩, .order ⟨.endAsync ⟨1, 0⟩ 2, none⟩,
    .order ⟨.setHostState ⟨1, 0⟩ 0 none, none⟩]

/-- Here the caller is collectible, and what it called was let go and has a task queued. -/
theorem collectible_after_letGo :
    build callTwiceDefinition {} .absent {} = .ok (built callTwiceDefinition {} .absent {})
    ∧ Moment False (built callTwiceDefinition {} .absent {})
        ((built callTwiceDefinition {} .absent {}).after letGoMoves)
    ∧ ((built callTwiceDefinition {} .absent {}).after letGoMoves).isCollectible ⟨1, 0⟩ = true
    ∧ ∃ j, TransGen ((built callTwiceDefinition {} .absent {}).after letGoMoves).forest.IsCaller
        ⟨1, 0⟩ j ∧ ((built callTwiceDefinition {} .absent {}).after letGoMoves).Works j := by
  have hb : build callTwiceDefinition {} .absent {}
      = .ok (built callTwiceDefinition {} .absent {}) := rfl
  have h := collectible_after hb
  have hmoment := h.1 letGoMoves
  have hcoll : ((built callTwiceDefinition {} .absent {}).after letGoMoves).isCollectible ⟨1, 0⟩
      = true := by decide +kernel
  have hparent : (((built callTwiceDefinition {} .absent {}).after letGoMoves).instance?
      ⟨2, 0⟩).map (·.parent) = some (some (⟨1, 0⟩, 2)) := by decide +kernel
  have htask : ((built callTwiceDefinition {} .absent {}).after letGoMoves).queue.hasTasksOf
      ⟨2, 0⟩ = true := by decide +kernel
  obtain ⟨s, hs, hp⟩ := Option.map_eq_some_iff.mp hparent
  obtain ⟨hletGo, _, hiff, _⟩ := h.2 _ ⟨1, 0⟩ hmoment hcoll
  exact ⟨hb, hmoment, hcoll, hiff.mpr ⟨⟨2, 0⟩, 2, ⟨s, hs, hp⟩, hletGo _ _ ⟨s, hs, hp⟩,
    ⟨2, 0⟩, .refl, s, hs, Or.inl htask⟩⟩

/-- Not every tick that neither stops the run nor runs a task of an instance at work leaves it
    there. -/
theorem not_spared_by_tick :
    ¬ ∀ (d : Definition) (e₀ : Engine) (moves : List Move) (i : InstanceId),
      build d {} .absent {} = .ok e₀ → (e₀.after moves).Works i →
      ((e₀.after moves).move (.tick none)).stopped = false →
      (∀ event ∈ ((e₀.after moves).move (.tick none)).journal, ∀ t, event = .stepped t →
        t.instanceId ≠ i) →
      ((e₀.after moves).move (.tick none)).instance? i ≠ none := by
  intro h
  have hlive : (calledTwice.instance? ⟨3, 0⟩).isSome = true := by decide +kernel
  have htask : calledTwice.queue.hasTasksOf ⟨3, 0⟩ = true := by decide +kernel
  have hgone : ((calledTwice.move (.tick none)).instance? ⟨3, 0⟩).isNone = true := by
    decide +kernel
  have hsteps : ((calledTwice.move (.tick none)).journal.all fun event =>
      event.stepped?.all (·.instanceId != ⟨3, 0⟩)) = true := by decide +kernel
  obtain ⟨s, hs⟩ := Option.isSome_iff_exists.mp hlive
  refine h callTwiceDefinition _ _ ⟨3, 0⟩ rfl ⟨s, hs, Or.inl htask⟩ (by decide +kernel) ?_
    (Option.isNone_iff_eq_none.mp hgone)
  rintro event hmem t rfl
  have hstep := List.all_eq_true.mp hsteps _ hmem
  simpa [Event.stepped?] using hstep

end InstrumentFlow.Engine
