import InstrumentFlow.Proofs.Forest.Access
import Mathlib.Data.List.Nodup
import Mathlib.Logic.Relation

/-!
# Sound forests

* `Forest.IsCaller`, `Forest.Sound` -- who called whom, and the links that belong together: every
  live instance stands exactly once in exactly one list, callers are live, and no chain of callers
  comes back to its beginning;
* `Forest.Sound.modify` -- a change of an instance that leaves its links alone;
* `Forest.get?_insert`, `Forest.Sound.insert` -- a new instance;
* `Forest.get?_remove`, `Forest.Sound.remove` -- the end of an instance without children.
-/

namespace InstrumentFlow

namespace Instance

/-- The instance whose component called this one. -/
def caller? (s : Instance) : Option InstanceId := s.parent.map (·.1)

/-- The links of an instance: whether it was called, by whom, and what it called. -/
def links (s : Instance) : Bool × Option (InstanceId × Nat) × List InstanceId :=
  (s.isAction, s.parent, s.children)

theorem caller?_eq_some_iff {s : Instance} {p : InstanceId} :
    s.caller? = some p ↔ ∃ c, s.parent = some (p, c) := by
  unfold caller?
  constructor
  · intro h
    obtain ⟨⟨q, c⟩, hq, he⟩ := Option.map_eq_some_iff.mp h
    exact ⟨c, by rw [hq, ← he]⟩
  · rintro ⟨c, h⟩
    rw [h]
    rfl

theorem caller?_eq_none_iff {s : Instance} : s.caller? = none ↔ s.parent = none :=
  Option.map_eq_none_iff

end Instance

namespace Forest

open Relation (TransGen)

/-! ## 1. The invariant -/

/-- The live instance `k` was called by a component of `p`. -/
def IsCaller (f : Forest) (p k : InstanceId) : Prop :=
  ∃ s, f.get? k = some s ∧ s.caller? = some p

/-- **The links of a forest belong together.** -/
structure Sound (f : Forest) : Prop where
  roots_nodup : f.roots.Nodup
  mem_roots : ∀ i, i ∈ f.roots ↔ ∃ s, f.get? i = some s ∧ s.parent = none
  children_nodup : ∀ p t, f.get? p = some t → t.children.Nodup
  mem_children : ∀ p t, f.get? p = some t → ∀ i, i ∈ t.children ↔ f.IsCaller p i
  caller_live : ∀ p k, f.IsCaller p k → ∃ t, f.get? p = some t
  acyclic : ∀ i, ¬ TransGen f.IsCaller i i
  isAction_eq : ∀ i s, f.get? i = some s → s.isAction = s.parent.isSome
  free : f.FreeSound
  live_eq : f.live = f.occupied

theorem sound_empty : ({} : Forest).Sound := by
  have hnone (i : InstanceId) : ({} : Forest).get? i = none := by simp [get?]
  have hcaller (p k : InstanceId) : ¬ ({} : Forest).IsCaller p k := by
    rintro ⟨s, h, _⟩
    rw [hnone] at h
    cases h
  refine
    { roots_nodup := List.nodup_nil
      mem_roots := fun i => by simp [hnone]
      children_nodup := fun p t h => by simp [hnone] at h
      mem_children := fun p t h => by simp [hnone] at h
      caller_live := fun p k h => absurd h (hcaller p k)
      acyclic := fun i h => ?_
      isAction_eq := fun i s h => by simp [hnone] at h
      free := ⟨List.nodup_nil, fun n => by simp⟩
      live_eq := rfl }
  obtain ⟨_, _, h⟩ := TransGen.tail'_iff.mp h
  exact hcaller _ _ h

theorem IsCaller.live {f : Forest} {p k : InstanceId} (h : f.IsCaller p k) :
    ∃ s, f.get? k = some s := by
  obtain ⟨s, hs, _⟩ := h
  exact ⟨s, hs⟩

namespace Sound

variable {f : Forest} (hf : f.Sound)
include hf

theorem parent_live {i p : InstanceId} {s : Instance} {c : Nat} (hi : f.get? i = some s)
    (hp : s.parent = some (p, c)) : ∃ t, f.get? p = some t :=
  hf.caller_live p i ⟨s, hi, Instance.caller?_eq_some_iff.mpr ⟨c, hp⟩⟩

theorem caller_ne {p k : InstanceId} (h : f.IsCaller p k) : p ≠ k := by
  rintro rfl
  exact hf.acyclic p (TransGen.single h)

end Sound

/-! ## 2. Changes that leave the links alone -/

theorem freeSound_modify {f : Forest} (hf : f.FreeSound) (i : InstanceId)
    (change : Instance → Instance) : (f.modify i change).FreeSound :=
  ⟨hf.nodup, fun n => (hf.mem_iff n).trans (vacant_modify f i change n).symm⟩

section

variable {f f' : Forest}
  (h : ∀ j, (f'.get? j).map Instance.links = (f.get? j).map Instance.links)
include h

/-- Every instance has one with the same links in the other forest. -/
theorem get?_of_links {j : InstanceId} {s' : Instance} (hj : f'.get? j = some s') :
    ∃ s, f.get? j = some s ∧ s.links = s'.links := by
  have he := h j
  rw [hj] at he
  exact Option.map_eq_some_iff.mp he.symm

/-- Who called whom is said by the links. -/
theorem isCaller_of_links {p k : InstanceId} (hp : f'.IsCaller p k) : f.IsCaller p k := by
  obtain ⟨s', hs', hp⟩ := hp
  obtain ⟨s, hs, he⟩ := get?_of_links h hs'
  have hparent : s.parent = s'.parent := congrArg (·.2.1) he
  unfold Instance.caller? at hp
  exact ⟨s, hs, by unfold Instance.caller?; rw [hparent, hp]⟩

end

/-- **A change of one instance** that leaves its links alone. -/
theorem Sound.modify {f : Forest} (hf : f.Sound) (i : InstanceId) {change : Instance → Instance}
    (hc : ∀ s, (change s).links = s.links) : (f.modify i change).Sound := by
  have hlinks (j : InstanceId) :
      ((f.modify i change).get? j).map Instance.links = (f.get? j).map Instance.links := by
    rw [get?_modify]
    split
    · next h =>
      rw [h, Option.map_map]
      exact congrArg (fun g => (f.get? i).map g) (funext hc)
    · rfl
  have back {j s'} (h : (f.modify i change).get? j = some s') := get?_of_links hlinks h
  have forth {j s} (h : f.get? j = some s) := get?_of_links (fun j => (hlinks j).symm) h
  have hparent {s s' : Instance} (h : s.links = s'.links) : s.parent = s'.parent :=
    congrArg (·.2.1) h
  have hchildren {s s' : Instance} (h : s.links = s'.links) : s.children = s'.children :=
    congrArg (·.2.2) h
  have hcaller : (f.modify i change).IsCaller = f.IsCaller := by
    funext p k
    exact propext ⟨isCaller_of_links hlinks, isCaller_of_links fun j => (hlinks j).symm⟩
  refine
    { roots_nodup := hf.roots_nodup
      mem_roots := fun j => ?_
      children_nodup := fun p t' h => ?_
      mem_children := fun p t' h j => ?_
      caller_live := fun p k h => ?_
      acyclic := fun j h => hf.acyclic j (hcaller ▸ h)
      isAction_eq := fun j s' h => ?_
      free := freeSound_modify hf.free i change
      live_eq := by rw [live_modify, occupied_modify, hf.live_eq] }
  · rw [roots_modify, hf.mem_roots]
    constructor
    · rintro ⟨s, hs, hp⟩
      obtain ⟨s', hs', he⟩ := forth hs
      exact ⟨s', hs', (hparent he).trans hp⟩
    · rintro ⟨s', hs', hp⟩
      obtain ⟨s, hs, he⟩ := back hs'
      exact ⟨s, hs, (hparent he).trans hp⟩
  · obtain ⟨t, ht, he⟩ := back h
    exact hchildren he ▸ hf.children_nodup p t ht
  · obtain ⟨t, ht, he⟩ := back h
    rw [← hchildren he, hf.mem_children p t ht j, hcaller]
  · rw [hcaller] at h
    obtain ⟨t, ht⟩ := hf.caller_live p k h
    obtain ⟨t', ht', _⟩ := forth ht
    exact ⟨t', ht'⟩
  · obtain ⟨s, hs, he⟩ := back h
    have ha : s.isAction = s'.isAction := congrArg (·.1) he
    rw [← ha, hf.isAction_eq j s hs, hparent he]

/-! ## 3. A new instance -/

/-- A new instance that has its place in a forest: no children yet, and a live caller if any. -/
structure Rooted (f : Forest) (s : Instance) : Prop where
  no_children : s.children = []
  caller_live : ∀ p, s.caller? = some p → ∃ t, f.get? p = some t
  isAction_eq : s.isAction = s.parent.isSome

theorem insert_snd (f : Forest) (s : Instance) :
    (f.insert s).2 = (f.place s).2.link (f.insert s).1 s.caller? := rfl

section Insert

variable {f : Forest} {s : Instance} (hf : f.FreeSound) (hs : f.Rooted s)
include hf

/-- The handle of a new instance led nowhere before. -/
theorem get?_insert_fresh : f.get? (f.insert s).1 = none := get?_place_fresh hf s

theorem get?_placed (j : InstanceId) :
    (f.place s).2.get? j = if j = (f.insert s).1 then some s else f.get? j := get?_place hf s j

include hs

/-- The caller of a new instance is there, and it is another one. -/
theorem caller_place {p : InstanceId} (hp : s.caller? = some p) :
    p ≠ (f.insert s).1 ∧ (f.place s).2.contains p = true := by
  obtain ⟨t, ht⟩ := hs.caller_live p hp
  have hne : p ≠ (f.insert s).1 := by
    intro h
    rw [h, get?_insert_fresh hf] at ht
    cases ht
  exact ⟨hne, contains_iff.mpr ⟨t, by rw [get?_placed hf, if_neg hne, ht]⟩⟩

/-- What the handles of a forest lead to after an insertion. -/
theorem get?_insert (j : InstanceId) :
    (f.insert s).2.get? j =
      if j = (f.insert s).1 then some s
      else (f.get? j).map fun t =>
        if s.caller? = some j then { t with children := t.children ++ [(f.insert s).1] }
        else t := by
  rw [insert_snd]
  cases hp : s.caller? with
  | none =>
    show (f.place s).2.get? j = _
    rw [get?_placed hf]
    simp
  | some p =>
    obtain ⟨hne, hc⟩ := caller_place hf hs hp
    simp only [link, hc, if_true]
    rw [get?_modify]
    by_cases hj : j = p
    · subst hj
      rw [if_pos rfl, if_neg hne, get?_placed hf, if_neg hne]
      simp
    · rw [if_neg hj, get?_placed hf]
      simp [Ne.symm hj]

theorem get?_insert_self : (f.insert s).2.get? (f.insert s).1 = some s := by
  rw [get?_insert hf hs, if_pos rfl]

theorem roots_insert :
    (f.insert s).2.roots
      = if s.parent = none then f.roots ++ [(f.insert s).1] else f.roots := by
  rw [insert_snd]
  cases hp : s.caller? with
  | none =>
    rw [if_pos (Instance.caller?_eq_none_iff.mp hp)]
    show (f.place s).2.roots ++ _ = _
    rw [roots_place]
  | some p =>
    obtain ⟨-, hc⟩ := caller_place hf hs hp
    have hsome : s.parent ≠ none := by
      intro h
      rw [Instance.caller?_eq_none_iff.mpr h] at hp
      cases hp
    rw [if_neg hsome]
    simp [link, hc]

/-- An insertion only lets the new instance have a caller. -/
theorem isCaller_insert (p k : InstanceId) :
    (f.insert s).2.IsCaller p k ↔
      f.IsCaller p k ∨ (k = (f.insert s).1 ∧ s.caller? = some p) := by
  unfold IsCaller
  rw [get?_insert hf hs]
  by_cases hk : k = (f.insert s).1
  · rw [if_pos hk, hk, get?_insert_fresh hf]
    simp
  · rw [if_neg hk]
    have hcaller (t : Instance) (l : List InstanceId) :
        ({ t with children := l } : Instance).caller? = t.caller? := rfl
    cases f.get? k with
    | none => simp [hk]
    | some t =>
      by_cases hp : s.caller? = some k <;> simp [hk, hp, hcaller]

/-- An instance after an insertion is the new one, or an old one that may have got a child. -/
theorem get?_insert_cases {j : InstanceId} {t' : Instance} (h : (f.insert s).2.get? j = some t') :
    (j = (f.insert s).1 ∧ t' = s) ∨
    ∃ t, f.get? j = some t ∧ t'.parent = t.parent ∧ t'.isAction = t.isAction ∧
      t'.children = if s.caller? = some j then t.children ++ [(f.insert s).1] else t.children := by
  rw [get?_insert hf hs] at h
  split at h
  · next hj => exact Or.inl ⟨hj, (Option.some.inj h).symm⟩
  · obtain ⟨t, ht, rfl⟩ := Option.map_eq_some_iff.mp h
    refine Or.inr ⟨t, ht, ?_⟩
    split <;> exact ⟨rfl, rfl, rfl⟩

/-- Whoever was there before may have got a child, and nothing else. -/
theorem get?_insert_children {j : InstanceId} {t' : Instance}
    (h : (f.insert s).2.get? j = some t') :
    (j = (f.insert s).1 ∧ t' = s)
      ∨ j ≠ (f.insert s).1 ∧ ∃ t l, f.get? j = some t ∧ t' = { t with children := l } := by
  rw [get?_insert hf hs] at h
  split at h
  · next hj => exact Or.inl ⟨hj, (Option.some.inj h).symm⟩
  next hj =>
  obtain ⟨t, ht, rfl⟩ := Option.map_eq_some_iff.mp h
  refine Or.inr ⟨hj, t, ?_⟩
  split
  · exact ⟨_, ht, rfl⟩
  · exact ⟨t.children, ht, rfl⟩

/-- Every old instance is still there. -/
theorem get?_insert_of_some {j : InstanceId} {t : Instance} (h : f.get? j = some t) :
    ∃ t', (f.insert s).2.get? j = some t' ∧ t'.parent = t.parent := by
  have hne : j ≠ (f.insert s).1 := by
    intro hj
    rw [hj, get?_insert_fresh hf] at h
    cases h
  rw [get?_insert hf hs, if_neg hne, h]
  refine ⟨_, rfl, ?_⟩
  split <;> rfl

/-- A path of calls in the larger forest that does not end at the new instance is one of the
    smaller forest: the new instance called nobody. -/
theorem transGen_insert (hlive : ∀ p k, f.IsCaller p k → ∃ t, f.get? p = some t)
    {a b : InstanceId} (h : TransGen (f.insert s).2.IsCaller a b) (hb : b ≠ (f.insert s).1) :
    TransGen f.IsCaller a b := by
  have old {p k} (h : (f.insert s).2.IsCaller p k) (hk : k ≠ (f.insert s).1) : f.IsCaller p k := by
    rcases (isCaller_insert hf hs p k).mp h with h | ⟨h, _⟩
    · exact h
    · exact absurd h hk
  induction h with
  | single h => exact TransGen.single (old h hb)
  | @tail b c _ hbc ih =>
    have hc := old hbc hb
    refine TransGen.tail (ih ?_) hc
    rintro rfl
    obtain ⟨t, ht⟩ := hlive _ _ hc
    rw [get?_insert_fresh hf] at ht
    cases ht

end Insert

theorem freeSound_link {f : Forest} (hf : f.FreeSound) (i : InstanceId) (p : Option InstanceId) :
    (f.link i p).FreeSound := by
  unfold link
  split
  · split
    · exact freeSound_modify hf _ _
    · exact ⟨hf.nodup, hf.mem_iff⟩
  · exact ⟨hf.nodup, hf.mem_iff⟩

theorem occupied_link (f : Forest) (i : InstanceId) (p : Option InstanceId) :
    (f.link i p).occupied = f.occupied := by
  unfold link
  split
  · split
    · exact occupied_modify _ _ _
    · rfl
  · rfl

theorem live_link (f : Forest) (i : InstanceId) (p : Option InstanceId) :
    (f.link i p).live = f.live := by
  unfold link
  split
  · split <;> rfl
  · rfl

/-- **A new instance** keeps a forest sound. -/
theorem Sound.insert {f : Forest} (hf : f.Sound) {s : Instance} (hs : f.Rooted s) :
    (f.insert s).2.Sound := by
  have hfresh := get?_insert_fresh hf.free (s := s)
  have hnew := get?_insert_self hf.free hs
  have hcaller := isCaller_insert hf.free hs
  refine
    { roots_nodup := ?_
      mem_roots := fun j => ?_
      children_nodup := fun p t' h => ?_
      mem_children := fun p t' h j => ?_
      caller_live := fun p k h => ?_
      acyclic := fun j h => ?_
      isAction_eq := fun j t' h => ?_
      free := freeSound_link (freeSound_place hf.free s) _ _
      live_eq := ?_ }
  · rw [roots_insert hf.free hs]
    split
    · rw [← List.concat_eq_append]
      refine hf.roots_nodup.concat fun h => ?_
      obtain ⟨t, ht, _⟩ := (hf.mem_roots _).mp h
      rw [hfresh] at ht
      cases ht
    · exact hf.roots_nodup
  · have hj : j ∈ (f.insert s).2.roots ↔ j ∈ f.roots ∨ (j = (f.insert s).1 ∧ s.parent = none) := by
      rw [roots_insert hf.free hs]
      by_cases hp : s.parent = none <;> simp [hp]
    rw [hj, hf.mem_roots]
    constructor
    · rintro (⟨t, ht, hp⟩ | ⟨rfl, hp⟩)
      · obtain ⟨t', ht', he⟩ := get?_insert_of_some hf.free hs ht
        exact ⟨t', ht', he.trans hp⟩
      · exact ⟨s, hnew, hp⟩
    · rintro ⟨t', ht', hp⟩
      rcases get?_insert_cases hf.free hs ht' with ⟨hj, rfl⟩ | ⟨t, ht, he, _⟩
      · exact Or.inr ⟨hj, hp⟩
      · exact Or.inl ⟨t, ht, he ▸ hp⟩
  · rcases get?_insert_cases hf.free hs h with ⟨_, rfl⟩ | ⟨t, ht, _, _, hc⟩
    · rw [hs.no_children]
      exact List.nodup_nil
    · rw [hc]
      split
      · rw [← List.concat_eq_append]
        refine (hf.children_nodup p t ht).concat fun h => ?_
        obtain ⟨t', ht', _⟩ := (hf.mem_children p t ht _).mp h
        rw [hfresh] at ht'
        cases ht'
      · exact hf.children_nodup p t ht
  · rw [hcaller]
    rcases get?_insert_cases hf.free hs h with ⟨rfl, rfl⟩ | ⟨t, ht, _, _, hc⟩
    · rw [hs.no_children]
      refine ⟨fun h => (nomatch h), ?_⟩
      rintro (h | ⟨-, h⟩)
      · obtain ⟨t, ht⟩ := hf.caller_live _ _ h
        rw [hfresh] at ht
        cases ht
      · exact absurd rfl (caller_place hf.free hs h).1
    · rw [hc, ← hf.mem_children p t ht]
      by_cases hp : s.caller? = some p <;> simp [hp]
  · rcases (hcaller p k).mp h with h | ⟨_, h⟩
    · obtain ⟨t, ht⟩ := hf.caller_live p k h
      obtain ⟨t', ht', _⟩ := get?_insert_of_some hf.free hs ht
      exact ⟨t', ht'⟩
    · obtain ⟨t, ht⟩ := hs.caller_live p h
      obtain ⟨t', ht', _⟩ := get?_insert_of_some hf.free hs ht
      exact ⟨t', ht'⟩
  · by_cases hj : j = (f.insert s).1
    · -- the new instance would have called somebody
      obtain ⟨b, hb, _⟩ := TransGen.head'_iff.mp h
      rcases (hcaller j b).mp hb with hb | ⟨_, hb⟩
      · obtain ⟨t, ht⟩ := hf.caller_live _ _ hb
        rw [hj, hfresh] at ht
        cases ht
      · exact (caller_place hf.free hs hb).1 hj
    · exact hf.acyclic j (transGen_insert hf.free hs hf.caller_live h hj)
  · rcases get?_insert_cases hf.free hs h with ⟨_, rfl⟩ | ⟨t, ht, hp, ha, _⟩
    · exact hs.isAction_eq
    · rw [ha, hp, hf.isAction_eq j t ht]
  · rw [insert_snd, live_link, live_place, occupied_link, occupied_place hf.free, hf.live_eq]

/-! ## 4. The end of an instance -/

theorem remove_eq_some_iff {f f' : Forest} {i : InstanceId} {s : Instance} :
    f.remove i = some (s, f') ↔ f.get? i = some s ∧ f' = (f.vacate i).unlink i s.caller? := by
  unfold remove
  cases f.get? i with
  | none => simp
  | some t =>
    constructor
    · intro h
      obtain ⟨rfl, rfl⟩ := Prod.mk.inj (Option.some.inj h)
      exact ⟨rfl, rfl⟩
    · rintro ⟨h, rfl⟩
      rw [Option.some.inj h]
      rfl

section Remove

variable {f f' : Forest} {i : InstanceId} {s : Instance}

/-- What the handles of a forest lead to after a removal. -/
theorem get?_remove (h : f.remove i = some (s, f')) (j : InstanceId) :
    f'.get? j =
      if j = i then none
      else (f.get? j).map fun t =>
        if s.caller? = some j then { t with children := t.children.filter (· != i) } else t := by
  obtain ⟨hi, rfl⟩ := remove_eq_some_iff.mp h
  unfold unlink
  split
  · next p hp =>
    split
    · rw [get?_modify, get?_vacate hi, get?_vacate hi]
      by_cases hj : j = p
      · subst hj
        by_cases hji : j = i <;> simp [hji, hp]
      · rw [if_neg hj]
        by_cases hji : j = i <;> simp [hji, hp, Ne.symm hj]
    · next hc =>
      show (f.vacate i).get? j = _
      rw [get?_vacate hi]
      split
      · rfl
      · next hji =>
        by_cases hj : j = p
        · -- a caller that is gone has no list of children
          have hnone : f.get? j = none := by
            have hn : (f.vacate i).get? p = none := by simpa [contains] using hc
            rwa [← hj, get?_vacate hi, if_neg hji] at hn
          rw [hnone]
          rfl
        · simp [hp, Ne.symm hj]
  · next hp =>
    show (f.vacate i).get? j = _
    rw [get?_vacate hi, hp]
    simp

/-- An instance after a removal is an old one that may have lost a child. -/
theorem get?_remove_cases (h : f.remove i = some (s, f')) {j : InstanceId} {t' : Instance}
    (hj : f'.get? j = some t') :
    j ≠ i ∧ ∃ t, f.get? j = some t ∧ t'.parent = t.parent ∧ t'.isAction = t.isAction ∧
      t'.children = if s.caller? = some j then t.children.filter (· != i) else t.children := by
  rw [get?_remove h] at hj
  split at hj
  · cases hj
  · next hne =>
    obtain ⟨t, ht, rfl⟩ := Option.map_eq_some_iff.mp hj
    refine ⟨hne, t, ht, ?_⟩
    split <;> exact ⟨rfl, rfl, rfl⟩

/-- Every other instance is still there. -/
theorem get?_remove_of_some (h : f.remove i = some (s, f')) {j : InstanceId} {t : Instance}
    (hne : j ≠ i) (hj : f.get? j = some t) :
    ∃ t', f'.get? j = some t' ∧ t'.parent = t.parent := by
  rw [get?_remove h, if_neg hne, hj]
  refine ⟨_, rfl, ?_⟩
  split <;> rfl

/-- Whoever is left may have lost a child, and nothing else. -/
theorem get?_remove_children (h : f.remove i = some (s, f')) {j : InstanceId} {t' : Instance}
    (hj : f'.get? j = some t') :
    j ≠ i ∧ ∃ t l, f.get? j = some t ∧ t' = { t with children := l } := by
  rw [get?_remove h] at hj
  split at hj
  · cases hj
  next hne =>
  obtain ⟨t, ht, rfl⟩ := Option.map_eq_some_iff.mp hj
  refine ⟨hne, t, ?_⟩
  split
  · exact ⟨_, ht, rfl⟩
  · exact ⟨t.children, ht, rfl⟩

theorem get?_remove_self (h : f.remove i = some (s, f')) : f'.get? i = none := by
  rw [get?_remove h, if_pos rfl]

theorem isCaller_remove (h : f.remove i = some (s, f')) (p k : InstanceId) :
    f'.IsCaller p k ↔ f.IsCaller p k ∧ k ≠ i := by
  constructor
  · rintro ⟨t', ht', hp⟩
    obtain ⟨hne, t, ht, he, _⟩ := get?_remove_cases h ht'
    exact ⟨⟨t, ht, by unfold Instance.caller? at hp ⊢; rw [← he, hp]⟩, hne⟩
  · rintro ⟨⟨t, ht, hp⟩, hne⟩
    obtain ⟨t', ht', he⟩ := get?_remove_of_some h hne ht
    exact ⟨t', ht', by unfold Instance.caller? at hp ⊢; rw [he, hp]⟩

theorem roots_remove (hf : f.Sound) (h : f.remove i = some (s, f')) :
    f'.roots = if s.parent = none then f.roots.filter (· != i) else f.roots := by
  obtain ⟨hi, rfl⟩ := remove_eq_some_iff.mp h
  cases hp : s.caller? with
  | none =>
    rw [if_pos (Instance.caller?_eq_none_iff.mp hp)]
    rfl
  | some p =>
    have hsome : s.parent ≠ none := by
      intro h
      rw [Instance.caller?_eq_none_iff.mpr h] at hp
      cases hp
    have hcall : f.IsCaller p i := ⟨s, hi, hp⟩
    obtain ⟨t, ht⟩ := hf.caller_live p i hcall
    have hc : (f.vacate i).contains p = true :=
      contains_iff.mpr ⟨t, by rw [get?_vacate hi, if_neg (hf.caller_ne hcall), ht]⟩
    rw [if_neg hsome]
    simp only [unlink, hc, if_true]
    rfl

end Remove

theorem freeSound_unlink {f : Forest} (hf : f.FreeSound) (i : InstanceId)
    (p : Option InstanceId) : (f.unlink i p).FreeSound := by
  unfold unlink
  split
  · split
    · exact freeSound_modify hf _ _
    · exact ⟨hf.nodup, hf.mem_iff⟩
  · exact ⟨hf.nodup, hf.mem_iff⟩

theorem occupied_unlink (f : Forest) (i : InstanceId) (p : Option InstanceId) :
    (f.unlink i p).occupied = f.occupied := by
  unfold unlink
  split
  · split
    · exact occupied_modify _ _ _
    · rfl
  · rfl

theorem live_unlink (f : Forest) (i : InstanceId) (p : Option InstanceId) :
    (f.unlink i p).live = f.live := by
  unfold unlink
  split
  · split <;> rfl
  · rfl

/-- One instance less is live. -/
theorem Sound.live_remove {f f' : Forest} {i : InstanceId} {s : Instance} (hf : f.Sound)
    (h : f.remove i = some (s, f')) : f'.live + 1 = f.live := by
  obtain ⟨hi, rfl⟩ := remove_eq_some_iff.mp h
  have hpos := occupied_vacate hi
  rw [live_unlink, hf.live_eq]
  have hlive : (f.vacate i).live = f.live - 1 := rfl
  rw [hlive, hf.live_eq]
  omega

/-- **The end of an instance without children** keeps a forest sound. -/
theorem Sound.remove {f f' : Forest} {i : InstanceId} {s : Instance} (hf : f.Sound)
    (h : f.remove i = some (s, f')) (hs : s.children = []) : f'.Sound := by
  obtain ⟨hi, hf'⟩ := remove_eq_some_iff.mp h
  have hcaller := isCaller_remove h
  refine
    { roots_nodup := ?_
      mem_roots := fun j => ?_
      children_nodup := fun p t' ht' => ?_
      mem_children := fun p t' ht' j => ?_
      caller_live := fun p k hpk => ?_
      acyclic := fun j hj =>
        hf.acyclic j (TransGen.mono (fun p k hpk => ((hcaller p k).mp hpk).1) j j hj)
      isAction_eq := fun j t' ht' => ?_
      free := hf' ▸ freeSound_unlink (freeSound_vacate hi hf.free) _ _
      live_eq := ?_ }
  · rw [roots_remove hf h]
    split
    · exact hf.roots_nodup.filter _
    · exact hf.roots_nodup
  · have hj : j ∈ f'.roots ↔ j ∈ f.roots ∧ j ≠ i := by
      rw [roots_remove hf h]
      split
      · simp
      · next hp =>
        refine ⟨fun hj => ⟨hj, ?_⟩, And.left⟩
        rintro rfl
        obtain ⟨t, ht, hroot⟩ := (hf.mem_roots j).mp hj
        rw [hi] at ht
        exact hp (Option.some.inj ht ▸ hroot)
    rw [hj, hf.mem_roots]
    constructor
    · rintro ⟨⟨t, ht, hp⟩, hne⟩
      obtain ⟨t', ht', he⟩ := get?_remove_of_some h hne ht
      exact ⟨t', ht', he.trans hp⟩
    · rintro ⟨t', ht', hp⟩
      obtain ⟨hne, t, ht, he, _⟩ := get?_remove_cases h ht'
      exact ⟨⟨t, ht, he ▸ hp⟩, hne⟩
  · obtain ⟨_, t, ht, _, _, hc⟩ := get?_remove_cases h ht'
    rw [hc]
    split
    · exact (hf.children_nodup p t ht).filter _
    · exact hf.children_nodup p t ht
  · obtain ⟨_, t, ht, _, _, hc⟩ := get?_remove_cases h ht'
    rw [hcaller, hc, ← hf.mem_children p t ht]
    split
    · simp
    · next hp =>
      refine ⟨fun hj => ⟨hj, ?_⟩, And.left⟩
      rintro rfl
      obtain ⟨s', hs', hcall⟩ := (hf.mem_children p t ht j).mp hj
      rw [hi] at hs'
      exact hp (Option.some.inj hs' ▸ hcall)
  · obtain ⟨hpk, hk⟩ := (hcaller p k).mp hpk
    obtain ⟨t, ht⟩ := hf.caller_live p k hpk
    have hne : p ≠ i := by
      -- the removed instance called nobody
      rintro rfl
      have hmem := (hf.mem_children p s hi k).mpr hpk
      rw [hs] at hmem
      cases hmem
    obtain ⟨t', ht', _⟩ := get?_remove_of_some h hne ht
    exact ⟨t', ht'⟩
  · obtain ⟨_, t, ht, hp, ha, _⟩ := get?_remove_cases h ht'
    rw [ha, hp, hf.isAction_eq j t ht]
  · have hlive := hf.live_remove h
    have hocc : f'.occupied + 1 = f.occupied := by
      rw [hf', occupied_unlink, occupied_vacate hi]
    have := hf.live_eq
    omega

end Forest

end InstrumentFlow
