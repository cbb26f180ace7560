import InstrumentFlow.Proofs.Engine.Destruction
import InstrumentFlow.Proofs.Engine.Marks
import InstrumentFlow.Proofs.Lifetime.Events

/-!
# An instance above a destruction

What a destruction below an instance does to that instance: it takes away children and marks, one
after the other, until either the destruction is over or the instance falls with them.

* `Keeps` -- an instance is as before, but for its children;
* `CanFall`, `mayFall_iff` -- only waiting components keep an instance from falling;
* `Under` -- an instance, if it is live, was called from below another one;
* `Guard`, `Destroys.guards` -- what holds of an instance through a destruction below it.
-/

namespace InstrumentFlow

/-- An instance without its children. -/
def Instance.alone (s : Instance) : Instance := { s with children := [] }

namespace Engine

open Relation (TransGen)

/-! ## 1. Instances that are kept -/

/-- **The instance is as before**, but for its children. -/
structure Keeps (i : InstanceId) (e e' : Engine) : Prop where
  alone_eq : (e'.instance? i).map Instance.alone = (e.instance? i).map Instance.alone
  tasks_eq : e'.queue.hasTasksOf i = e.queue.hasTasksOf i
  executing_eq : e'.executing = e.executing

/-- Nothing but waiting components keeps the instance from going with the last call that ends. -/
def CanFall (e : Engine) (i : InstanceId) : Prop := e.isExecuting i = false ∧ e.IsIdle i

theorem mayFall_iff {e : Engine} (hfits : ∀ i s, e.instance? i = some s → Fits e.definition s)
    (i : InstanceId) : e.mayFall i = true ↔ e.CanFall i ∧ ∀ c, ¬ e.Marked i c := by
  unfold mayFall CanFall
  rw [Bool.and_eq_true, isCollectible_iff hfits, Bool.not_eq_true', and_assoc]

namespace Keeps

variable {i : InstanceId} {e e' : Engine} (h : Keeps i e e')
include h

theorem symm : Keeps i e' e := ⟨h.alone_eq.symm, h.tasks_eq.symm, h.executing_eq.symm⟩

theorem forth {s : Instance} (hs : e.instance? i = some s) :
    ∃ s', e'.instance? i = some s' ∧ s'.alone = s.alone := by
  have halone := h.alone_eq
  rw [hs] at halone
  exact Option.map_eq_some_iff.mp halone

theorem live (hl : e.instance? i ≠ none) : e'.instance? i ≠ none := by
  obtain ⟨s, hs⟩ := Option.ne_none_iff_exists'.mp hl
  obtain ⟨s', hs', _⟩ := h.forth hs
  rw [hs']
  exact Option.some_ne_none s'

theorem canFall (hc : e.CanFall i) : e'.CanFall i := by
  obtain ⟨hexec, s, hs, haction, htasks, hprogress⟩ := hc
  obtain ⟨s', hs', he⟩ := h.forth hs
  refine ⟨?_, s', hs', ?_, h.tasks_eq.trans htasks, ?_⟩
  · unfold isExecuting
    rw [h.executing_eq]
    exact hexec
  · exact (congrArg (·.isAction) he).trans haction
  · rw [show s'.progress = s.progress from congrArg (·.progress) he]
    exact hprogress

theorem marked {c : Nat} (hm : e.Marked i c) : e'.Marked i c := by
  obtain ⟨s, hs, hc⟩ := hm
  obtain ⟨s', hs', he⟩ := h.forth hs
  refine ⟨s', hs', ?_⟩
  unfold Instance.isAsync at hc ⊢
  rw [show s'.async = s.async from congrArg (·.async) he]
  exact hc

theorem wasCalled {p : InstanceId} {c : Nat} (hw : e.WasCalled i p c) : e'.WasCalled i p c := by
  obtain ⟨s, hs, hp⟩ := hw
  obtain ⟨s', hs', he⟩ := h.forth hs
  exact ⟨s', hs', (congrArg (·.parent) he).trans hp⟩

end Keeps

theorem keeps_buried {e : Engine} {k : InstanceId} {s : Instance} {forest : Forest}
    (hr : (e.stripped k).forest.remove k = some (s, forest)) {i : InstanceId} (hi : i ≠ k) :
    Keeps i e ((e.stripped k).buried k forest) := by
  have hstrip := progressOnly_stripped e k
  refine ⟨?_, ?_, hstrip.executing_eq⟩
  · show (forest.get? i).map Instance.alone = _
    rw [Forest.get?_remove hr, if_neg hi]
    rw [show (e.stripped k).forest.get? i = e.instance? i from hstrip.others i hi, Option.map_map]
    refine congrArg (fun f => (e.instance? i).map f) (funext fun t => ?_)
    show Instance.alone (if _ then _ else _) = _
    split <;> rfl
  · show ((e.stripped k).queue.discard k).hasTasksOf i = _
    rw [hstrip.queue_eq]
    exact hasTasksOf_discard _ hi

theorem keeps_echoed (e : Engine) {i k : InstanceId} (hi : i ≠ k) : Keeps i e (e.echoed k) :=
  ⟨rfl, hasTasksOf_discard _ hi, rfl⟩

theorem keeps_clearAsync (e : Engine) (child : Option InstanceId) {i p : InstanceId} (c : Nat)
    (hi : i ≠ p) : Keeps i e (e.clearAsync child p c) where
  alone_eq := by rw [instance?_clearAsync, if_neg hi]
  tasks_eq := congrArg (·.hasTasksOf i) (queue_markAsync (e.record _) p c false)
  executing_eq := executing_markAsync (e.record _) p c false

/-- Marks that go do not change whether only marks keep an instance. -/
theorem canFall_clearAsync (e : Engine) (child : Option InstanceId) (i p : InstanceId) (c : Nat) :
    (e.clearAsync child p c).CanFall i ↔ e.CanFall i := by
  by_cases hi : i = p
  · subst hi
    unfold CanFall IsIdle isExecuting
    rw [instance?_clearAsync, if_pos rfl,
      show (e.clearAsync child i c).queue = e.queue from queue_markAsync (e.record _) i c false,
      show (e.clearAsync child i c).executing = e.executing
        from executing_markAsync (e.record _) i c false]
    cases e.instance? i with
    | none => simp
    | some s =>
      have heq := s.mark_eq c false
      simp only [Option.map_some, Option.some.injEq, exists_eq_left']
      rw [show (s.mark c false).isAction = s.isAction from congrArg (·.isAction) heq,
        show (s.mark c false).progress = s.progress from congrArg (·.progress) heq]
  · exact ⟨(keeps_clearAsync e child c hi).symm.canFall, (keeps_clearAsync e child c hi).canFall⟩

theorem live_clearAsync (e : Engine) (child : Option InstanceId) (i p : InstanceId) (c : Nat) :
    (e.clearAsync child p c).instance? i ≠ none ↔ e.instance? i ≠ none := by
  rw [instance?_clearAsync]
  split
  · next hi => rw [hi, ne_eq, ne_eq, Option.map_eq_none_iff]
  · rfl

/-- A buried instance is no longer a child of anybody; all others are as before. -/
theorem wasCalled_buried {e : Engine} {k : InstanceId} {s : Instance} {forest : Forest}
    (hr : (e.stripped k).forest.remove k = some (s, forest)) (k' p : InstanceId) (c : Nat) :
    ((e.stripped k).buried k forest).WasCalled k' p c ↔ e.WasCalled k' p c ∧ k' ≠ k := by
  constructor
  · intro hw
    have hk : k' ≠ k := by
      rintro rfl
      obtain ⟨t, ht, _⟩ := hw
      rw [instance?_buried hr] at ht
      cases ht
    exact ⟨(keeps_buried hr hk).symm.wasCalled hw, hk⟩
  · rintro ⟨hw, hk⟩
    exact (keeps_buried hr hk).wasCalled hw

/-- The instance that is buried has the parent that it always had. -/
theorem parent_of_buried {e e₁ : Engine} {k : InstanceId} {s : Instance} {forest : Forest}
    (hw : Wanes e e₁) (hr : (e₁.stripped k).forest.remove k = some (s, forest)) :
    (∃ s₁, e₁.instance? k = some s₁ ∧ s₁.parent = s.parent)
      ∧ ∃ s₀, e.instance? k = some s₀ ∧ s₀.parent = s.parent := by
  obtain ⟨hs, _⟩ := Forest.remove_eq_some_iff.mp hr
  obtain ⟨s₁, hs₁, he⟩ := (progressOnly_stripped e₁ k).calm.back hs
  have hp₁ : s₁.parent = s.parent := (Instance.parent_of_frame he).symm
  obtain ⟨s₀, hs₀, hsurvives⟩ := hw.survivors k s₁ hs₁
  exact ⟨⟨s₁, hs₁, hp₁⟩, ⟨s₀, hs₀, hsurvives.parent_eq.symm.trans hp₁⟩⟩

theorem wasCalled_of_buried {e e₁ : Engine} {k p : InstanceId} {c : Nat} {s : Instance}
    {forest : Forest} (hw : Wanes e e₁)
    (hr : (e₁.stripped k).forest.remove k = some (s, forest)) (hp : s.parent = some (p, c)) :
    e₁.WasCalled k p c ∧ e.WasCalled k p c := by
  obtain ⟨⟨s₁, hs₁, hp₁⟩, s₀, hs₀, hp₀⟩ := parent_of_buried hw hr
  exact ⟨⟨s₁, hs₁, hp₁.trans hp⟩, ⟨s₀, hs₀, hp₀.trans hp⟩⟩

theorem WasCalled.isCaller {e : Engine} {k p : InstanceId} {c : Nat} (h : e.WasCalled k p c) :
    e.forest.IsCaller p k := by
  obtain ⟨s, hs, hp⟩ := h
  exact ⟨s, hs, Instance.caller?_eq_some_iff.mpr ⟨c, hp⟩⟩

/-! ## 2. Instances below another one -/

/-- The instance `k`, if it is live, was called from below `i`. -/
def Under (e : Engine) (i k : InstanceId) : Prop :=
  e.instance? k ≠ none → TransGen e.forest.IsCaller i k

/-- Who was called from below an instance has all its callers up to it. -/
theorem transGen_wanes {e e' : Engine} (hw : Wanes e e') (hf : e'.forest.Sound) {i k : InstanceId}
    (hk : TransGen e.forest.IsCaller i k) (hlive : e'.instance? k ≠ none) :
    TransGen e'.forest.IsCaller i k := by
  have hlink {p k : InstanceId} (hc : e.forest.IsCaller p k) (hlive : e'.instance? k ≠ none) :
      e'.forest.IsCaller p k := by
    obtain ⟨s', hs'⟩ := Option.ne_none_iff_exists'.mp hlive
    obtain ⟨s, hs, he⟩ := hw.survivors k s' hs'
    obtain ⟨t, ht, hp⟩ := hc
    rw [show e.forest.get? k = some s from hs] at ht
    exact ⟨s', hs', he.caller?_eq.trans (Option.some.inj ht ▸ hp)⟩
  induction hk with
  | single hc => exact .single (hlink hc hlive)
  | tail _ hc ih =>
    have hc' := hlink hc hlive
    obtain ⟨t, ht⟩ := hf.caller_live _ _ hc'
    refine .tail (ih ?_) hc'
    rw [show e'.instance? _ = some t from ht]
    exact Option.some_ne_none t

theorem Under.wanes {e e' : Engine} {i k : InstanceId} (h : Under e i k) (hw : Wanes e e')
    (hf : e'.forest.Sound) : Under e' i k := fun hlive =>
  transGen_wanes hw hf (h fun hn => hlive (hw.none_of_none hn)) hlive

/-- The caller of an instance below `i` is `i` or below it. -/
theorem caller_of_transGen {f : Forest} {i k p : InstanceId} (hk : TransGen f.IsCaller i k)
    (hp : f.IsCaller p k) : p = i ∨ TransGen f.IsCaller i p := by
  have hsame {q : InstanceId} (hq : f.IsCaller q k) : q = p := by
    obtain ⟨s, hs, hq⟩ := hq
    obtain ⟨t, ht, hp⟩ := hp
    rw [hs] at ht
    rw [← Option.some.inj ht, hq] at hp
    exact Option.some.inj hp
  cases hk with
  | single hc => exact Or.inl (hsame hc).symm
  | tail h hc => exact Or.inr (hsame hc ▸ h)

theorem ne_of_transGen {f : Forest} (hf : f.Sound) {i k : InstanceId}
    (hk : TransGen f.IsCaller i k) : i ≠ k := by
  rintro rfl
  exact hf.acyclic _ hk

/-- Who was called from below an instance has a caller. -/
theorem caller_of_under {f : Forest} {i k : InstanceId} (hk : TransGen f.IsCaller i k) :
    ∃ p, f.IsCaller p k := by
  cases hk with
  | single hc => exact ⟨_, hc⟩
  | tail _ hc => exact ⟨_, hc⟩

/-- An instance that nobody called is not below another one. -/
theorem not_below_of_root {e e₁ : Engine} {i k : InstanceId} {s : Instance} {forest : Forest}
    (hw : Wanes e e₁) (hr : (e₁.stripped k).forest.remove k = some (s, forest))
    (hp : s.parent = none) : ¬ TransGen e.forest.IsCaller i k := by
  intro hbelow
  obtain ⟨q, t, ht, hq⟩ := caller_of_under hbelow
  obtain ⟨_, s₀, hs₀, hp₀⟩ := parent_of_buried hw hr
  rw [show e.forest.get? k = some s₀ from hs₀] at ht
  unfold Instance.caller? at hq
  rw [← Option.some.inj ht, hp₀, hp] at hq
  cases hq

/-- The children of an instance are below whoever that instance is below. -/
theorem under_children {e : Engine} (hf : e.forest.Sound) {i k : InstanceId} {s : Instance}
    (hs : e.instance? k = some s) (hbelow : TransGen e.forest.IsCaller i k) :
    ∀ k' ∈ s.children, Under e i k' := fun k' hmem _ =>
  hbelow.tail ((hf.mem_children k s hs k').mp hmem)

/-! ## 3. Reports of a destruction -/

theorem lives_stripped (e : Engine) (k : InstanceId) (forest : Forest) :
    ((e.stripped k).buried k forest).lives = .destroyed k :: e.lives :=
  (lives_buried _ k forest).trans (congrArg (_ :: ·) (progressOnly_stripped e k).calm.lives)

theorem reports_buried_self (e : Engine) (k : InstanceId) (forest : Forest) :
    ((e.stripped k).buried k forest).reports k = e.reports k + 1 := by
  rw [reports_of_lives (lives_stripped e k forest), Event.isReport, beq_self_eq_true, if_pos rfl]

theorem reports_buried_of_ne (e : Engine) {i k : InstanceId} (hi : i ≠ k) (forest : Forest) :
    ((e.stripped k).buried k forest).reports i = e.reports i := by
  rw [reports_of_lives (lives_stripped e k forest), Event.isReport, beq_false_of_ne hi.symm]
  rfl

theorem reports_echoed_self (e : Engine) (k : InstanceId) :
    (e.echoed k).reports k = e.reports k + 1 := by
  rw [reports_of_lives (lives_echoed e k), Event.isReport, beq_self_eq_true, if_pos rfl]

theorem reports_echoed_of_ne (e : Engine) {i k : InstanceId} (hi : i ≠ k) :
    (e.echoed k).reports i = e.reports i := by
  rw [reports_of_lives (lives_echoed e k), Event.isReport, beq_false_of_ne hi.symm]
  rfl

theorem reports_clearAsync (e : Engine) (child : Option InstanceId) (p : InstanceId) (c : Nat)
    (i : InstanceId) : (e.clearAsync child p c).reports i = e.reports i := by
  rw [reports_of_lives (lives_clearAsync e child p c)]
  rfl

/-! ## 4. Guards -/

/-- **What holds of an instance through a destruction below it**: `P` between the ends of children,
    and `Q` when a child is gone but the component that called it was not told yet. The instance
    goes with its children only if `F`. -/
structure Guards (closed : Prop) (i : InstanceId) (P : Engine → Prop) (Q : Nat → Engine → Prop)
    (F : Prop) : Prop where
  live : ∀ e c, Q c e → e.instance? i ≠ none
  others : ∀ e e', Keeps i e e' → (∀ k c, e'.WasCalled k i c ↔ e.WasCalled k i c) → P e → P e'
  bury : ∀ e e' k c, Keeps i e e' → e.WasCalled k i c →
    (∀ k' c', e'.WasCalled k' i c' ↔ e.WasCalled k' i c' ∧ k' ≠ k) → P e → Q c e'
  heard : ∀ e k c, Inv closed e → Q c e → (e.clearAsync (some k) i c).mayFall i = false →
    P (e.clearAsync (some k) i c)
  falls : ∀ e k c, Inv closed e → Q c e → (e.clearAsync (some k) i c).mayFall i = true → F

/-- A part of a destruction that happens below the instance `i`. -/
def Guard (i : InstanceId) (P : Engine → Prop) (Q : Nat → Engine → Prop) (e : Engine) : Job → Prop
  | .one k => P e ∧ Under e i k
  | .all ks => P e ∧ ∀ k ∈ ks, Under e i k
  | .wake _ p c => p = i ∧ Q c e ∨ p ≠ i ∧ P e ∧ Under e i p

/-- What is left to be done after a child was buried: its caller is to be told. -/
theorem Guards.wake {closed : Prop} {i : InstanceId} {P : Engine → Prop}
    {Q : Nat → Engine → Prop} {F : Prop} (hg : Guards closed i P Q F) {e : Engine}
    {k p : InstanceId} {c : Nat} {s : Instance} {forest : Forest} (hne : i ≠ k)
    (hr : (e.stripped k).forest.remove k = some (s, forest)) (hcalled : e.WasCalled k p c)
    (hP : P e) (hunder : p ≠ i → Under ((e.stripped k).buried k forest) i p) :
    Guard i P Q ((e.stripped k).buried k forest) (.wake k p c) := by
  have hkeeps := keeps_buried hr hne
  by_cases hpi : p = i
  · subst hpi
    exact Or.inl ⟨rfl, hg.bury _ _ k c hkeeps hcalled (fun k' c' => wasCalled_buried hr k' p c') hP⟩
  · refine Or.inr ⟨hpi, hg.others _ _ hkeeps (fun k' c' => ?_) hP, hunder hpi⟩
    rw [wasCalled_buried hr]
    refine ⟨And.left, fun hw => ⟨hw, ?_⟩⟩
    rintro rfl
    obtain ⟨t, ht, hq⟩ := hw
    obtain ⟨t', ht', hq'⟩ := hcalled
    rw [ht] at ht'
    rw [Option.some.inj ht', hq'] at hq
    exact hpi (congrArg (·.1) (Option.some.inj hq))

/-- **Through a destruction below it an instance keeps what its guards say**, and is not reported,
    or it falls. -/
theorem Destroys.guards {closed : Prop} {i : InstanceId} {P : Engine → Prop}
    {Q : Nat → Engine → Prop} {F : Prop} (hg : Guards closed i P Q F) {job : Job} {e e' : Engine}
    (h : Destroys job e e') (hi : Inv closed e) (hj : Guard i P Q e job) :
    P e' ∧ e'.reports i = e.reports i ∨ F ∧ e'.instance? i = none := by
  induction h with
  | gone _ => exact Or.inl ⟨hj.1, rfl⟩
  | @root e e₁ k s s₁ forest hs hk hr hp ihk =>
    have hbelow := hj.2 (by rw [hs]; exact Option.some_ne_none s)
    exact absurd hbelow (not_below_of_root hk.wanes hr hp)
  | @called e e₁ e₂ k p c s s₁ forest hs hk hr hp hw ihk ihw =>
    obtain ⟨hP, hunder⟩ := hj
    have hbelow := hunder (by rw [hs]; exact Option.some_ne_none s)
    have hne : i ≠ k := ne_of_transGen hi.sound hbelow
    have hi₁ := (hk.changes hi).inv hi
    have hi₂ := (Destroys.changes_buried hi hi₁ hs hk hr).inv hi₁
    rcases ihk hi ⟨hP, under_children hi.sound hs hbelow⟩ with ⟨hP₁, hr₁⟩ | ⟨hF, hn⟩
    · obtain ⟨hcalled₁, hcalled⟩ := wasCalled_of_buried hk.wanes hr hp
      have hguard := hg.wake hne hr hcalled₁ hP₁ fun hpi => by
        have hunder : Under e i p := fun _ =>
          (caller_of_transGen hbelow hcalled.isCaller).resolve_left hpi
        exact hunder.wanes (hk.wanes.trans (Wanes.buried hr)) hi₂.sound
      rcases ihw hi₂ hguard with ⟨hP₂, hr₂⟩ | hfell
      · exact Or.inl ⟨hP₂, by rw [hr₂, reports_buried_of_ne _ hne, hr₁]⟩
      · exact Or.inr hfell
    · exact Or.inr ⟨hF, hw.wanes.none_of_none ((Wanes.buried hr).none_of_none hn)⟩
  | @again e e₁ k s hs hk hn ihk =>
    obtain ⟨hP, hunder⟩ := hj
    have hbelow := hunder (by rw [hs]; exact Option.some_ne_none s)
    have hne : i ≠ k := ne_of_transGen hi.sound hbelow
    rcases ihk hi ⟨hP, under_children hi.sound hs hbelow⟩ with ⟨hP₁, hr₁⟩ | ⟨hF, hgone⟩
    · refine Or.inl ⟨hg.others _ _ (keeps_echoed e₁ hne) (fun _ _ => Iff.rfl) hP₁, ?_⟩
      rw [reports_echoed_of_ne _ hne, hr₁]
    · exact Or.inr ⟨hF, hgone⟩
  | nil => exact Or.inl ⟨hj.1, rfl⟩
  | @cons e e₁ e₂ k ks hk hks ihk ihks =>
    obtain ⟨hP, hunder⟩ := hj
    have hi₁ := (hk.changes hi).inv hi
    rcases ihk hi ⟨hP, hunder k List.mem_cons_self⟩ with ⟨hP₁, hr₁⟩ | ⟨hF, hn⟩
    · have hunder₁ : ∀ k' ∈ ks, Under e₁ i k' := fun k' hmem =>
        (hunder k' (List.mem_cons_of_mem k hmem)).wanes hk.wanes hi₁.sound
      rcases ihks hi₁ ⟨hP₁, hunder₁⟩ with ⟨hP₂, hr₂⟩ | hfell
      · exact Or.inl ⟨hP₂, hr₂.trans hr₁⟩
      · exact Or.inr hfell
    · exact Or.inr ⟨hF, hks.wanes.none_of_none hn⟩
  | @unheard e k p c hn =>
    rcases hj with ⟨rfl, hQ⟩ | ⟨_, hP, _⟩
    · exact absurd hn (hg.live e c hQ)
    · exact Or.inl ⟨hP, rfl⟩
  | @heard e k p c s hs hf =>
    refine Or.inl ⟨?_, reports_clearAsync e (some k) p c i⟩
    rcases hj with ⟨rfl, hQ⟩ | ⟨hpi, hP, _⟩
    · exact hg.heard e k c hi hQ hf
    · exact hg.others _ _ (keeps_clearAsync e (some k) c (Ne.symm hpi))
        (fun k' c' => wasCalled_clearAsync e (some k) p c k' i c') hP
  | @falls e e₁ k p c s hs hf hone ih =>
    have hchange : Change closed e (e.clearAsync (some k) p c) := .release _ _ _
    have hi₁ := hchange.inv hi
    rcases hj with ⟨rfl, hQ⟩ | ⟨hpi, hP, hunder⟩
    · exact Or.inr ⟨hg.falls e k c hi hQ hf, hone.one_gone⟩
    · have hP₁ := hg.others _ _ (keeps_clearAsync e (some k) c (Ne.symm hpi))
        (fun k' c' => wasCalled_clearAsync e (some k) p c k' i c') hP
      have hunder₁ := hunder.wanes (Wanes.clearAsync e (some k) p c) hi₁.sound
      rcases ih hi₁ ⟨hP₁, hunder₁⟩ with ⟨hP₂, hr₂⟩ | hfell
      · exact Or.inl ⟨hP₂, hr₂.trans (reports_clearAsync e (some k) p c i)⟩
      · exact Or.inr hfell

end Engine

end InstrumentFlow
