import InstrumentFlow.Proofs.Engine.Course
import InstrumentFlow.Proofs.Lifetime.Guard

/-!
# Ends that are reported twice

The destruction of an instance first destroys what it called. If nothing but those calls keeps the
instance, it goes with the last of them, and when its own destruction is resumed it is reported once
more.

* `Resounds` -- the states in which the destruction of an instance reports it more than once;
* `Destroys.reports_of_resounds` -- such a destruction reports its instance more than once;
* `Resounded` -- somewhere on a row of changes a destruction of the instance resounded;
* `Destroys.tally`, `Course.tally` -- otherwise every beginning is reported to end at most once.
-/

namespace InstrumentFlow.Engine

open Relation (TransGen)

/-! ## 1. Instances that go with what they called -/

/-- **The end of the instance resounds**: nothing but the calls that it made keeps it, there is one
    at least, and every component that waits does so for an instance that is still there. -/
structure Resounds (e : Engine) (i : InstanceId) : Prop where
  canFall : e.CanFall i
  calls : ∃ k c, e.WasCalled k i c
  answered : ∀ c, e.Marked i c → ∃ k, e.WasCalled k i c

/-- Something keeps the instance that no end of a call takes away: its own work, or the component
    `c`, which waits although nothing that it called is left. -/
def Held (e : Engine) (i : InstanceId) (c : Nat) : Prop :=
  e.instance? i ≠ none ∧ (e.CanFall i → e.Marked i c ∧ ∀ k, ¬ e.WasCalled k i c)

theorem live_of_canFall {e : Engine} {i : InstanceId} (h : e.CanFall i) :
    e.instance? i ≠ none := by
  obtain ⟨_, s, hs, _⟩ := h
  rw [hs]
  exact Option.some_ne_none s

/-- What is held stays held, whatever happens below it. -/
theorem guards_held (closed : Prop) (i : InstanceId) (c : Nat) :
    Guards closed i (Held · i c) (fun c' e => Held e i c ∧ (e.CanFall i → c' ≠ c)) False where
  live _ _ hQ := hQ.1.1
  others e e' hkeeps hcalls hheld := by
    refine ⟨hkeeps.live hheld.1, fun hfall => ?_⟩
    obtain ⟨hmark, hnone⟩ := hheld.2 (hkeeps.symm.canFall hfall)
    exact ⟨hkeeps.marked hmark, fun k hk => hnone k ((hcalls k c).mp hk)⟩
  bury e e' k c' hkeeps hk hcalls hheld := by
    refine ⟨⟨hkeeps.live hheld.1, fun hfall => ?_⟩, fun hfall => ?_⟩
    · obtain ⟨hmark, hnone⟩ := hheld.2 (hkeeps.symm.canFall hfall)
      exact ⟨hkeeps.marked hmark, fun k' hk' => hnone k' ((hcalls k' c).mp hk').1⟩
    · rintro rfl
      exact (hheld.2 (hkeeps.symm.canFall hfall)).2 k hk
  heard e k c' _ hQ _ := by
    obtain ⟨hheld, hne⟩ := hQ
    refine ⟨(live_clearAsync e _ i i c').mpr hheld.1, fun hfall => ?_⟩
    rw [canFall_clearAsync] at hfall
    obtain ⟨hmark, hnone⟩ := hheld.2 hfall
    refine ⟨(marked_clearAsync e _ i i c' c).mpr ⟨hmark, fun h => hne hfall h.2.symm⟩, ?_⟩
    exact fun k' hk' => hnone k' ((wasCalled_clearAsync e _ i c' k' i c).mp hk')
  falls e k c' hi hQ hmay := by
    obtain ⟨hheld, hne⟩ := hQ
    have hchange : Change closed e (e.clearAsync (some k) i c') := .release _ _ _
    obtain ⟨hfall, hmarks⟩ := (mayFall_iff (hchange.inv hi).fits i).mp hmay
    rw [canFall_clearAsync] at hfall
    have hmark := (hheld.2 hfall).1
    exact hmarks c ((marked_clearAsync e _ i i c' c).mpr ⟨hmark, fun h => hne hfall h.2.symm⟩)

/-- Nothing but calls keeps the instance until it goes. -/
theorem guards_resounds (closed : Prop) (i : InstanceId) :
    Guards closed i (Resounds · i)
      (fun c e => e.CanFall i ∧ ∀ c', c' ≠ c → e.Marked i c' → ∃ k, e.WasCalled k i c') True where
  live _ _ hQ := live_of_canFall hQ.1
  others e e' hkeeps hcalls h := by
    refine ⟨hkeeps.canFall h.canFall, ?_, fun c hmark => ?_⟩
    · obtain ⟨k, c, hk⟩ := h.calls
      exact ⟨k, c, (hcalls k c).mpr hk⟩
    · obtain ⟨k, hk⟩ := h.answered c (hkeeps.symm.marked hmark)
      exact ⟨k, (hcalls k c).mpr hk⟩
  bury e e' k c hkeeps hk hcalls h := by
    refine ⟨hkeeps.canFall h.canFall, fun c' hne hmark => ?_⟩
    obtain ⟨k', hk'⟩ := h.answered c' (hkeeps.symm.marked hmark)
    refine ⟨k', (hcalls k' c').mpr ⟨hk', ?_⟩⟩
    -- the buried child was called by another component
    rintro rfl
    obtain ⟨s, hs, hp⟩ := hk
    obtain ⟨t, ht, hp'⟩ := hk'
    rw [hs] at ht
    rw [← Option.some.inj ht, hp] at hp'
    exact hne (congrArg (·.2) (Option.some.inj hp')).symm
  heard e k c hi hQ hmay := by
    obtain ⟨hfall, hmarks⟩ := hQ
    have hchange : Change closed e (e.clearAsync (some k) i c) := .release _ _ _
    have hfall' := (canFall_clearAsync e (some k) i i c).mpr hfall
    have hanswered (c' : Nat) (hmark : (e.clearAsync (some k) i c).Marked i c') :
        ∃ k', (e.clearAsync (some k) i c).WasCalled k' i c' := by
      obtain ⟨hmark, hne⟩ := (marked_clearAsync e (some k) i i c c').mp hmark
      obtain ⟨k', hk'⟩ := hmarks c' (fun h => hne ⟨rfl, h⟩) hmark
      exact ⟨k', (wasCalled_clearAsync e (some k) i c k' i c').mpr hk'⟩
    refine ⟨hfall', ?_, hanswered⟩
    have hsome : ∃ c', (e.clearAsync (some k) i c).Marked i c' := by
      refine Classical.byContradiction fun hnone => ?_
      rw [not_exists] at hnone
      rw [(mayFall_iff (hchange.inv hi).fits i).mpr ⟨hfall', hnone⟩] at hmay
      cases hmay
    obtain ⟨c', hmark⟩ := hsome
    obtain ⟨k', hk'⟩ := hanswered c' hmark
    exact ⟨k', c', hk'⟩
  falls _ _ _ _ _ _ := trivial

/-- An instance whose end does not resound called nothing that is live, or it is held. -/
theorem held_of_not_resounds {e : Engine} {i : InstanceId} (hlive : e.instance? i ≠ none)
    (h : ¬ e.Resounds i) : (∀ k c, ¬ e.WasCalled k i c) ∨ ∃ c, Held e i c := by
  by_cases hfall : e.CanFall i
  · by_cases hcalls : ∃ k c, e.WasCalled k i c
    · have hopen : ∃ c, e.Marked i c ∧ ∀ k, ¬ e.WasCalled k i c := by
        refine Classical.byContradiction fun hnone => h ⟨hfall, hcalls, fun c hmark => ?_⟩
        exact Classical.byContradiction fun hk =>
          hnone ⟨c, hmark, fun k hcall => hk ⟨k, hcall⟩⟩
      obtain ⟨c, hc⟩ := hopen
      exact Or.inr ⟨c, hlive, fun _ => hc⟩
    · exact Or.inl fun k c hk => hcalls ⟨k, c, hk⟩
  · exact Or.inr ⟨0, hlive, fun hf => absurd hf hfall⟩

/-! ## 2. One destruction -/

section

variable {closed : Prop} {e e' : Engine} {i : InstanceId} (hi : Inv closed e)
include hi

theorem guard_children {P : Engine → Prop} {Q : Nat → Engine → Prop} {s : Instance}
    (hs : e.instance? i = some s) (hP : P e) : Guard i P Q e (.all s.children) :=
  ⟨hP, fun k hk _ => .single ((hi.sound.mem_children i s hs k).mp hk)⟩

/-- Unless its end resounds, an instance is still there after its children. -/
theorem live_after_children {s : Instance} (hs : e.instance? i = some s) (h : ¬ e.Resounds i)
    (hk : Destroys (.all s.children) e e') :
    e'.instance? i ≠ none ∧ e'.reports i = e.reports i := by
  have hlive : e.instance? i ≠ none := by
    rw [hs]
    exact Option.some_ne_none s
  rcases held_of_not_resounds hlive h with hnone | ⟨c, hheld⟩
  · have hchildren : s.children = [] := by
      refine List.eq_nil_iff_forall_not_mem.mpr fun k hmem => ?_
      obtain ⟨t, ht, hp⟩ := (hi.sound.mem_children i s hs k).mp hmem
      obtain ⟨c, hc⟩ := Instance.caller?_eq_some_iff.mp hp
      exact hnone k c ⟨t, ht, hc⟩
    rw [hchildren] at hk
    cases hk
    exact ⟨hlive, rfl⟩
  · rcases hk.guards (guards_held closed i c) hi (guard_children hi hs hheld) with h | h
    · exact ⟨h.1.1, h.2⟩
    · exact h.1.elim

/-- An instance whose end resounds goes with its children. -/
theorem gone_with_children {s : Instance} (hs : e.instance? i = some s) (h : e.Resounds i)
    (hk : Destroys (.all s.children) e e') : e'.instance? i = none := by
  rcases hk.guards (guards_resounds closed i) hi (guard_children hi hs h) with h' | h'
  · obtain ⟨s', hs'⟩ := Option.ne_none_iff_exists'.mp (live_of_canFall h'.1.canFall)
    obtain ⟨k, c, hcall⟩ := h'.1.calls
    have hi' := (hk.changes hi).inv hi
    have hmem := (hi'.sound.mem_children i s' hs' k).mpr hcall.isCaller
    rw [hk.no_children hi.sound hi'.sound hs hs'] at hmem
    cases hmem
  · exact h'.2

/-- **A destruction that resounds** reports its instance more than once. -/
theorem Destroys.reports_of_resounds (hd : Destroys (.one i) e e') (h : e.Resounds i) :
    e.reports i + 2 ≤ e'.reports i := by
  have hgone {s t : Instance} {e₁ : Engine} (hs : e.instance? i = some s)
      (hk : Destroys (.all s.children) e e₁) (ht : (e₁.stripped i).instance? i = some t) :
      False := by
    have hn := gone_with_children hi hs h hk
    rw [← (progressOnly_stripped e₁ i).calm.none_iff, ht] at hn
    cases hn
  cases hd with
  | gone hn => exact absurd hn (live_of_canFall h.canFall)
  | root hs hk hr _ => exact (hgone hs hk (Forest.remove_eq_some_iff.mp hr).1).elim
  | called hs hk hr _ _ => exact (hgone hs hk (Forest.remove_eq_some_iff.mp hr).1).elim
  | @again _ e₁ _ s hs hk hn =>
    -- it was reported when it went with its children
    have htally := (hk.changes hi).tally_le hi i
    have hcontains : e.forest.contains i = true := Forest.contains_iff.mpr ⟨s, hs⟩
    have hcontains₁ : e₁.forest.contains i = false :=
      Option.isSome_eq_false_iff.mpr (Option.isNone_iff_eq_none.mpr hn)
    rw [tally_of_live hcontains, tally_of_gone hcontains₁] at htally
    rw [reports_echoed_self]
    omega

end

/-! ## 3. Every course -/

/-- **A destruction of the instance resounded** somewhere on the way. -/
def Resounded (closed : Prop) (e e' : Engine) (i : InstanceId) : Prop :=
  ∃ e₁ e₂, Changes closed e e₁ ∧ e₁.Resounds i ∧ Destroys (.one i) e₁ e₂ ∧ Changes closed e₂ e'

theorem Resounded.before {closed : Prop} {e₀ e e' : Engine} {i : InstanceId}
    (h : Resounded closed e e' i) (hc : Changes closed e₀ e) : Resounded closed e₀ e' i := by
  obtain ⟨e₁, e₂, h₁, hres, hd, h₂⟩ := h
  exact ⟨e₁, e₂, hc.trans h₁, hres, hd, h₂⟩

theorem Resounded.behind {closed : Prop} {e e' e'' : Engine} {i : InstanceId}
    (h : Resounded closed e e' i) (hc : Changes closed e' e'') : Resounded closed e e'' i := by
  obtain ⟨e₁, e₂, h₁, hres, hd, h₂⟩ := h
  exact ⟨e₁, e₂, h₁, hres, hd, h₂.trans hc⟩

/-- The first end of an instance leaves its tally, and those of all others. -/
theorem tally_buried {e : Engine} {k : InstanceId} {s : Instance} {forest : Forest}
    (hr : (e.stripped k).forest.remove k = some (s, forest)) (i : InstanceId) :
    ((e.stripped k).buried k forest).tally i = e.tally i := by
  have hcalm := (progressOnly_stripped e k).calm
  by_cases hik : i = k
  · subst hik
    have hlive : e.forest.contains i = true := by
      rw [← hcalm.contains_eq]
      exact Forest.contains_iff.mpr ⟨s, (Forest.remove_eq_some_iff.mp hr).1⟩
    have hgone : ((e.stripped i).buried i forest).forest.contains i = false :=
      Option.isSome_eq_false_iff.mpr (Option.isNone_iff_eq_none.mpr (instance?_buried hr))
    rw [tally_of_gone hgone, tally_of_live hlive, reports_buried_self]
  · unfold tally
    rw [reports_buried_of_ne e hik forest]
    have hsame : ((e.stripped k).buried k forest).forest.contains i = e.forest.contains i := by
      have halone := congrArg Option.isSome (keeps_buried hr hik).alone_eq
      rwa [Option.isSome_map, Option.isSome_map] at halone
    rw [hsame]

theorem tally_clearAsync (e : Engine) (child : Option InstanceId) (p : InstanceId) (c : Nat)
    (i : InstanceId) : (e.clearAsync child p c).tally i = e.tally i := by
  unfold tally
  rw [reports_clearAsync]
  exact congrArg (_ + if · then 1 else 0) (contains_markAsync (e.record _) p i c false)

/-- **A destruction reports every end once** that does not resound. -/
theorem Destroys.tally {closed : Prop} {job : Job} {e e' : Engine} (h : Destroys job e e')
    (hi : Inv closed e) (i : InstanceId) : e'.tally i = e.tally i ∨ Resounded closed e e' i := by
  induction h with
  | gone _ => exact Or.inl rfl
  | @root e e₁ k s s₁ forest hs hk hr hp ihk =>
    have hi₁ := (hk.changes hi).inv hi
    have hburied := changes_buried hi hi₁ hs hk hr
    rcases ihk hi with ht | hres
    · exact Or.inl ((tally_buried hr i).trans ht)
    · exact Or.inr (hres.behind hburied)
  | @called e e₁ e₂ k p c s s₁ forest hs hk hr hp hw ihk ihw =>
    have hi₁ := (hk.changes hi).inv hi
    have hburied := changes_buried hi hi₁ hs hk hr
    have hi₂ := hburied.inv hi₁
    rcases ihk hi with ht | hres
    · rcases ihw hi₂ with htw | hres
      · exact Or.inl (htw.trans ((tally_buried hr i).trans ht))
      · exact Or.inr (hres.before ((hk.changes hi).trans hburied))
    · exact Or.inr (hres.behind (hburied.trans (hw.changes hi₂)))
  | @again e e₁ k s hs hk hn ihk =>
    have hi₁ := (hk.changes hi).inv hi
    have hecho : Change closed e₁ (e₁.echoed k) :=
      .echo hn ((hk.changes hi).reported hi hs hn)
    by_cases hik : i = k
    · subst hik
      refine Or.inr ⟨e, _, .refl, ?_, .again hs hk hn, .refl⟩
      exact Classical.byContradiction fun h => (live_after_children hi hs h hk).1 hn
    · rcases ihk hi with ht | hres
      · refine Or.inl (Eq.trans ?_ ht)
        unfold Engine.tally
        rw [reports_echoed_of_ne e₁ hik]
        rfl
      · exact Or.inr (hres.behind (.single hecho))
  | nil => exact Or.inl rfl
  | cons hk hks ihk ihks =>
    have hi₁ := (hk.changes hi).inv hi
    rcases ihk hi with ht | hres
    · rcases ihks hi₁ with hts | hres
      · exact Or.inl (hts.trans ht)
      · exact Or.inr (hres.before (hk.changes hi))
    · exact Or.inr (hres.behind (hks.changes hi₁))
  | unheard _ => exact Or.inl rfl
  | heard _ _ => exact Or.inl (tally_clearAsync _ _ _ _ i)
  | @falls e e₁ k p c s hs hf hone ih =>
    have hchange : Change closed e (e.clearAsync (some k) p c) := .release _ _ _
    rcases ih (hchange.inv hi) with ht | hres
    · exact Or.inl (ht.trans (tally_clearAsync e (some k) p c i))
    · exact Or.inr (hres.before (.single hchange))

/-- Nothing begins while instances are destroyed. -/
theorem Destroys.births {job : Job} {e e' : Engine} (h : Destroys job e e') (i : InstanceId) :
    e'.births i = e.births i := by
  have hburied (e : Engine) (k : InstanceId) (forest : Forest) :
      ((e.stripped k).buried k forest).births i = e.births i :=
    births_of_lives (lives_stripped e k forest) i
  have hcleared (e : Engine) (k p : InstanceId) (c : Nat) :
      (e.clearAsync (some k) p c).births i = e.births i :=
    births_of_lives (lives_clearAsync e (some k) p c) i
  induction h with
  | gone _ => rfl
  | root _ _ _ _ ihk => rw [hburied, ihk]
  | called _ _ _ _ _ ihk ihw => rw [ihw, hburied, ihk]
  | again _ _ _ ihk => exact (births_of_lives (lives_echoed _ _) i).trans ihk
  | nil => rfl
  | cons _ _ ihk ihks => rw [ihks, ihk]
  | unheard _ => rfl
  | heard _ _ => exact hcleared _ _ _ _
  | falls _ _ _ ih => rw [ih, hcleared]

theorem Turn.tally_eq {e e' : Engine} {i : InstanceId} (h : Turn i e e')
    (hr : e'.reports i = e.reports i) (ht : e.tally i = e.births i) : e'.tally i = e'.births i := by
  cases h with
  | stays hc hb hr =>
    unfold Engine.tally at ht ⊢
    rw [hc, hb, hr, ht]
  | begins hn hc hb hr =>
    rw [tally_of_gone hn] at ht
    rw [tally_of_live hc, hb, hr, ht]
  | ends _ _ _ hr' | echoes _ _ _ _ hr' => omega

theorem Calm.tally_eq {e e' : Engine} (h : Calm e e') {i : InstanceId}
    (ht : e.tally i = e.births i) : e'.tally i = e'.births i := by
  unfold Engine.tally at ht ⊢
  rw [h.contains_eq, reports_congr h.lives, births_congr h.lives, ht]

theorem Inv.tally_startAsync {closed : Prop} {e : Engine} (hi : Inv closed e)
    {child : Option InstanceId} {j : InstanceId} {c : Nat}
    (hc : ∀ k, child = some k → e.WasCalled k j c) {i : InstanceId}
    (ht : e.tally i = e.births i) :
    (e.startAsync child j c).tally i = (e.startAsync child j c).births i := by
  have hchange : Change closed e (e.startAsync child j c) := .await hc
  exact (hchange.turn hi i).tally_eq (reports_of_lives (lives_startAsync e child j c) i) ht

theorem Inv.tally_arisen {closed : Prop} {e : Engine} (hi : Inv closed e) {flow : Nat} {f : Flow}
    (hf : e.definition.flows[flow]? = some f) {parent : Option (InstanceId × Nat)}
    {isAction : Bool} (hp : ∀ p, parent = some p → e.forest.contains p.1 = true)
    (ha : isAction = parent.isSome) {i : InstanceId} (ht : e.tally i = e.births i) :
    (e.arisen flow f parent isAction).tally i = (e.arisen flow f parent isAction).births i := by
  have hchange : Change closed e (e.begun flow f parent isAction) := .begin hf hp ha
  have hbegun := (hchange.turn hi i).tally_eq (reports_of_lives (lives_record rfl) i) ht
  exact (touches_arisen hi hf hp ha).calm.tally_eq hbegun

/-- **Along every course each beginning is reported to end at most once**, unless a destruction
    resounds. -/
theorem Course.tally {closed : Prop} {e e' : Engine} (hc : Course closed e e')
    (hi : Inv closed e) {i : InstanceId} (h : e.tally i = e.births i) :
    e'.tally i = e'.births i ∨ Resounded closed e e' i := by
  induction hc with
  | refl => exact Or.inl h
  | @tail e₁ e₂ hc hs ih =>
    have hi₁ := Course.inv hc hi
    have hchanges := Course.changes hc hi
    rcases ih with ht | hres
    · cases hs with
      | touch h => exact Or.inl (h.calm.tally_eq ht)
      | await j c => exact Or.inl (hi₁.tally_startAsync (by rintro k ⟨⟩) ht)
      | release child j c =>
        have hchange : Change closed e₁ (e₁.clearAsync child j c) := .release child j c
        exact Or.inl ((hchange.turn hi₁ i).tally_eq (reports_clearAsync e₁ child j c i) ht)
      | begin hf => exact Or.inl (hi₁.tally_arisen hf (by rintro p ⟨⟩) rfl ht)
      | @call flow f j c hf hl =>
        have hlive : ∀ p, some (j, c) = some p → e₁.forest.contains p.1 = true := by
          rintro p ⟨⟩
          exact hl
        refine Or.inl (Inv.tally_startAsync ((changes_arisen hi₁ hf hlive rfl).inv hi₁) ?_
          (hi₁.tally_arisen hf hlive rfl ht))
        rintro k ⟨⟩
        exact parent_arisen hi₁ hf hlive rfl
      | destroy h =>
        rcases h.tally hi₁ i with hd | hres
        · exact Or.inl (by rw [hd, ht, h.births])
        · exact Or.inr (hres.before hchanges)
    · exact Or.inr (hres.behind (hs.changes hi₁))

end InstrumentFlow.Engine
