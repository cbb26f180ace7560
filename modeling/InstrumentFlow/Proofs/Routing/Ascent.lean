import InstrumentFlow.Proofs.Engine.Calm
import InstrumentFlow.Proofs.Forest.Descent

/-!
# The way up from an instance

An error looks for a catch component from an instance up its callers, and then marks the instances
that it leaves. The way up ends at an instance that nobody called.

* `Ascent` -- the instances from one up its callers;
* `exists_ascent`, `Ascent.unique`, `Ascent.nodup` -- there is one way up, and no instance lies on it
  twice;
* `Ascent.length_lt_chainBound` -- it is no longer than the list of entries;
* `catchOf?`, `nearest` -- who catches an error that goes along a list of instances;
* `failAll` -- the instances of a list have failed;
* `Ascent.findCatcher_eq`, `Ascent.markFailed_eq` -- **the two walks** along the way up: any bound
  that is no shorter than the way lets them come to their end.
-/

namespace InstrumentFlow.Engine

/-! ## 1. The way up -/

/-- **The way up from an instance**: the instance, its caller, the caller of that, and so on to one
    that nobody called. -/
inductive Ascent (e : Engine) : InstanceId → List InstanceId → Prop
  | root {i : InstanceId} {s : Instance} (hs : e.instance? i = some s) (hp : s.parent = none) :
      Ascent e i [i]
  | call {i : InstanceId} {s : Instance} {p : InstanceId × Nat} {way : List InstanceId}
      (hs : e.instance? i = some s) (hp : s.parent = some p) (h : Ascent e p.1 way) :
      Ascent e i (i :: way)

section

variable {e : Engine} (hf : e.forest.Sound)
include hf

theorem rank_lt_of_parent {i : InstanceId} {s : Instance} {p : InstanceId × Nat}
    (hs : e.instance? i = some s) (hp : s.parent = some p) :
    e.forest.rank i < e.forest.rank p.1 :=
  hf.rank_lt_of_isCaller ⟨s, hs, Instance.caller?_eq_some_iff.mpr ⟨p.2, hp⟩⟩

/-- **From every live instance there is a way up.** -/
theorem exists_ascent {i : InstanceId} {s : Instance} (hs : e.instance? i = some s) :
    ∃ way, Ascent e i way := by
  -- the induction goes up: more instances were called from below a caller
  induction hn : e.forest.live - e.forest.rank i using Nat.strongRecOn generalizing i s with
  | ind n ih =>
    cases hp : s.parent with
    | none => exact ⟨[i], .root hs hp⟩
    | some p =>
      obtain ⟨t, ht⟩ := hf.parent_live hs hp
      have hrank := rank_lt_of_parent hf hs hp
      have hlive := hf.rank_lt_live ht
      obtain ⟨way, hway⟩ := ih (e.forest.live - e.forest.rank p.1) (by omega) ht rfl
      exact ⟨i :: way, .call hs hp hway⟩

end

namespace Ascent

variable {e : Engine} {i j : InstanceId} {way : List InstanceId}

theorem live (h : Ascent e i way) : ∃ s, e.instance? i = some s := by
  cases h <;> exact ⟨_, ‹_›⟩

theorem head?_eq (h : Ascent e i way) : way.head? = some i := by
  cases h <;> rfl

/-- **There is one way up.** -/
theorem unique {way' : List InstanceId} (h : Ascent e i way) (h' : Ascent e i way') :
    way = way' := by
  induction h generalizing way' with
  | root hs hp =>
    cases h' with
    | root => rfl
    | call hs' hp' =>
      obtain rfl := Option.some.inj (hs.symm.trans hs')
      cases hp.symm.trans hp'
  | call hs hp _ ih =>
    cases h' with
    | root hs' hp' =>
      obtain rfl := Option.some.inj (hs.symm.trans hs')
      cases hp.symm.trans hp'
    | call hs' hp' h' =>
      obtain rfl := Option.some.inj (hs.symm.trans hs')
      obtain rfl := Option.some.inj (hp.symm.trans hp')
      rw [ih h']

/-- What comes after the first instance is the way up from its caller. -/
theorem tail (h : Ascent e i way) (hj : way.tail.head? = some j) : Ascent e j way.tail := by
  cases h with
  | root => cases hj
  | call _ _ h =>
    rw [List.tail_cons, h.head?_eq] at hj
    rw [List.tail_cons, ← Option.some.inj hj]
    exact h

theorem rank_le (hf : e.forest.Sound) (h : Ascent e i way) (hj : j ∈ way) :
    e.forest.rank i ≤ e.forest.rank j := by
  induction h with
  | root => rw [List.mem_singleton.mp hj]
  | call hs hp _ ih =>
    rcases List.mem_cons.mp hj with rfl | hj
    · exact Nat.le_refl _
    · exact Nat.le_trans (Nat.le_of_lt (rank_lt_of_parent hf hs hp)) (ih hj)

/-- **No instance lies on a way up twice.** -/
theorem nodup (hf : e.forest.Sound) (h : Ascent e i way) : way.Nodup := by
  induction h with
  | root => exact List.nodup_singleton _
  | call hs hp h ih =>
    refine List.nodup_cons.mpr ⟨fun hmem => ?_, ih⟩
    exact absurd (h.rank_le hf hmem) (Nat.not_le.mpr (rank_lt_of_parent hf hs hp))

/-- The instances on a way up were not called from below its first one. -/
theorem length_add_rank_le (hf : e.forest.Sound) (h : Ascent e i way) :
    way.length + e.forest.rank i ≤ e.forest.live := by
  induction h with
  | root hs hp =>
    have hlive := hf.rank_lt_live hs
    rw [List.length_singleton]
    omega
  | call hs hp _ ih =>
    have hrank := rank_lt_of_parent hf hs hp
    rw [List.length_cons]
    omega

/-- **No way up has more instances than there are entries.** -/
theorem length_lt_chainBound (hf : e.forest.Sound) (h : Ascent e i way) :
    way.length < e.chainBound := by
  have hlength := h.length_add_rank_le hf
  have hlive := hf.live_eq
  have hentries : e.forest.occupied ≤ e.forest.entries.toList.length := List.countP_le_length
  rw [Array.length_toList] at hentries
  unfold chainBound
  omega

end Ascent

/-! ## 2. The search -/

/-- The first catch component of the flow of an instance. -/
def catchOf? (e : Engine) (j : InstanceId) : Option Nat :=
  (e.instance? j).bind fun s => catchComponent? (e.flowOf s)

/-- **Who catches an error** that goes along a list of instances: the first that has a catch
    component. -/
def nearest (e : Engine) (way : List InstanceId) : Option (InstanceId × Nat) :=
  way.findSome? fun j => (e.catchOf? j).map (j, ·)

/-- An error passes those that have no catch component. -/
theorem nearest_eq_some_iff {e : Engine} {way : List InstanceId} {catcher : InstanceId} {k : Nat} :
    e.nearest way = some (catcher, k) ↔ ∃ below above, way = below ++ catcher :: above
      ∧ e.catchOf? catcher = some k ∧ ∀ j ∈ below, e.catchOf? j = none := by
  unfold nearest
  rw [List.findSome?_eq_some_iff]
  constructor
  · rintro ⟨below, j, above, hway, hj, hbelow⟩
    obtain ⟨k', hk', heq⟩ := Option.map_eq_some_iff.mp hj
    obtain ⟨rfl, rfl⟩ := Prod.mk.inj heq
    exact ⟨below, above, hway, hk', fun j hj => Option.map_eq_none_iff.mp (hbelow j hj)⟩
  · rintro ⟨below, above, hway, hk, hbelow⟩
    exact ⟨below, catcher, above, hway, by rw [hk]; rfl,
      fun j hj => Option.map_eq_none_iff.mpr (hbelow j hj)⟩

section

variable {e : Engine} {i : InstanceId} {s : Instance} (hs : e.instance? i = some s)
include hs

theorem nearest_cons (way : List InstanceId) :
    e.nearest (i :: way) = match catchComponent? (e.flowOf s) with
      | some k => some (i, k)
      | none => e.nearest way := by
  unfold nearest catchOf?
  rw [List.findSome?_cons, hs, Option.bind_some]
  cases catchComponent? (e.flowOf s) <;> rfl

theorem findCatcher_succ (steps : Nat) :
    e.findCatcher (steps + 1) i = match catchComponent? (e.flowOf s) with
      | some k => some (i, k)
      | none => s.parent.bind fun p => e.findCatcher steps p.1 := by
  cases hk : catchComponent? (e.flowOf s) <;> simp [findCatcher, hs, hk]

end

/-- **The search goes along the way up**, and comes to its end there. -/
theorem Ascent.findCatcher_eq {e : Engine} {i : InstanceId} {way : List InstanceId}
    (h : Ascent e i way) {steps : Nat} (hsteps : way.length ≤ steps) :
    e.findCatcher steps i = e.nearest way := by
  induction h generalizing steps with
  | root hs hp =>
    obtain ⟨steps, rfl⟩ := Nat.exists_eq_add_of_lt hsteps
    rw [findCatcher_succ hs, nearest_cons hs, hp]
    rfl
  | @call _ _ _ way hs hp _ ih =>
    obtain ⟨steps, rfl⟩ := Nat.exists_eq_add_of_lt hsteps
    rw [findCatcher_succ hs, nearest_cons hs, hp, Option.bind_some,
      ih (Nat.le_add_right way.length steps)]

/-! ## 3. The marks -/

/-- Marks the instances of a list as failed. -/
def failAll (e : Engine) (failed : List InstanceId) : Engine :=
  failed.foldl (fun e j => e.modifyInstance j fun s => { s with failed := true }) e

theorem calm_failAll (e : Engine) (failed : List InstanceId) : Calm e (e.failAll failed) := by
  induction failed generalizing e with
  | nil => exact Calm.refl e
  | cons j failed ih => exact (Calm.modifyInstance e j fun s => s.frame_failed true).trans (ih _)

/-- **Exactly the instances of the list have failed.** -/
theorem instance?_failAll (e : Engine) (failed : List InstanceId) (j : InstanceId) :
    (e.failAll failed).instance? j
      = (e.instance? j).map fun s => if j ∈ failed then { s with failed := true } else s := by
  induction failed generalizing e with
  | nil => simp [failAll]
  | cons k failed ih =>
    have hrest := ih (e.modifyInstance k fun s => { s with failed := true })
    rw [instance?_modifyInstance] at hrest
    show (failAll (e.modifyInstance k fun s => { s with failed := true }) failed).instance? j = _
    rw [hrest]
    by_cases hj : j = k
    · subst hj
      cases e.instance? j <;> simp
    · simp [hj]

/-- The marks change nothing but the instances. -/
theorem failAll_eq (e : Engine) (failed : List InstanceId) :
    e.failAll failed = { e with forest := (e.failAll failed).forest } := by
  induction failed generalizing e with
  | nil => rfl
  | cons j failed ih => exact ih (e.modifyInstance j fun s => { s with failed := true })

/-- A step of the marks: the instance has failed, and its caller comes next. -/
theorem markFailed_succ {e : Engine} {catcher i : InstanceId} {s : Instance} (hi : i ≠ catcher)
    (hs : e.instance? i = some s) (steps : Nat) :
    markFailed catcher (steps + 1) i e = match s.parent with
      | some p => markFailed catcher steps p.1 (e.failAll [i])
      | none => e.failAll [i] := by
  rw [markFailed, if_neg hi, hs]
  rfl

/-- **The marks go along the way up** to the catching instance, and come to their end there. -/
theorem Ascent.markFailed_eq {e : Engine} {i : InstanceId} {way : List InstanceId}
    (h : Ascent e i way) (catcher : InstanceId) {steps : Nat} (hsteps : way.length ≤ steps) :
    markFailed catcher steps i e = e.failAll (way.takeWhile (· != catcher)) := by
  -- the walk goes on with the instance marked, which leaves the rest of the way up as it was
  suffices hmarked : ∀ e', Calm e e' →
      markFailed catcher steps i e' = e'.failAll (way.takeWhile (· != catcher)) from
    hmarked e (Calm.refl e)
  induction h generalizing steps with
  | @root i s hs hp =>
    intro e' hc
    obtain ⟨steps, rfl⟩ := Nat.exists_eq_add_of_lt hsteps
    obtain ⟨s', hs', he⟩ := hc.forth hs
    by_cases hi : i = catcher
    · simp [markFailed, hi, failAll]
    · rw [markFailed_succ hi hs', Instance.parent_of_frame he, hp,
        List.takeWhile_cons_of_pos (by simpa using hi)]
      rfl
  | @call i s p way hs hp _ ih =>
    intro e' hc
    obtain ⟨steps, rfl⟩ := Nat.exists_eq_add_of_lt hsteps
    obtain ⟨s', hs', he⟩ := hc.forth hs
    by_cases hi : i = catcher
    · simp [markFailed, hi, failAll]
    · rw [markFailed_succ hi hs', Instance.parent_of_frame he, hp,
        List.takeWhile_cons_of_pos (by simpa using hi)]
      exact ih (Nat.le_add_right way.length steps) _
        (hc.trans (Calm.modifyInstance e' i fun s => s.frame_failed true))

end InstrumentFlow.Engine
