import InstrumentFlow.Engine.Forest

/-!
# Access to a changed forest

What a handle leads to after each change of a forest, in terms of what it led to before.

* `Forest.get?_eq_some_iff` -- a handle leads to an instance if its entry has its generation;
* `Forest.get?_modify`, `occupied_modify` -- one instance changed, the shape kept;
* `Forest.get?_place`, `get?_vacate` -- an entry filled, an entry emptied;
* `Forest.occupied_place`, `occupied_vacate` -- the count of entries in use.
-/

namespace InstrumentFlow

namespace Forest

/-! ## 1. Handles and entries -/

theorem get?_eq_some_iff {f : Forest} {i : InstanceId} {s : Instance} :
    f.get? i = some s ↔ f.entries[i.index]? = some ⟨i.generation, some s⟩ := by
  unfold get?
  cases h : f.entries[i.index]? with
  | none => simp
  | some entry =>
    obtain ⟨generation, content⟩ := entry
    by_cases hg : generation = i.generation
    · simp [hg]
    · simp [hg]

theorem get?_eq_none_of_content {f : Forest} {i : InstanceId} {entry : Entry}
    (he : f.entries[i.index]? = some entry) (hc : entry.content = none) : f.get? i = none := by
  simp [get?, he, hc]

theorem contains_iff {f : Forest} {i : InstanceId} :
    f.contains i = true ↔ ∃ s, f.get? i = some s := by
  unfold contains
  exact Option.isSome_iff_exists

theorem index_lt_of_get? {f : Forest} {i : InstanceId} {s : Instance} (h : f.get? i = some s) :
    i.index < f.entries.size := by
  rw [get?_eq_some_iff] at h
  exact (Array.getElem?_eq_some_iff.mp h).1

/-- How many entries are in use. -/
def occupied (f : Forest) : Nat := f.entries.toList.countP (·.content.isSome)

/-! ## 2. One instance changed -/

theorem get?_modify (f : Forest) (i : InstanceId) (change : Instance → Instance)
    (j : InstanceId) :
    (f.modify i change).get? j = if j = i then (f.get? i).map change else f.get? j := by
  unfold modify get?
  simp only [Array.getElem?_modify]
  by_cases hji : j = i
  · subst hji
    cases h : f.entries[j.index]? with
    | none => simp
    | some entry =>
      by_cases hg : entry.generation = j.generation <;> simp [hg]
  · rw [if_neg hji]
    by_cases hx : i.index = j.index
    · -- the other handle of the same entry has another generation
      have hg : i.generation ≠ j.generation := by
        intro hg
        apply hji
        cases i
        cases j
        simp_all
      rw [if_pos hx]
      cases h : f.entries[j.index]? with
      | none => rfl
      | some entry =>
        by_cases he : entry.generation = i.generation
        · simp [he, hg]
        · simp [he]
    · rw [if_neg hx]

theorem get?_modify_of_ne {f : Forest} {i j : InstanceId} (h : j ≠ i)
    (change : Instance → Instance) : (f.modify i change).get? j = f.get? j := by
  rw [get?_modify, if_neg h]

@[simp] theorem roots_modify (f : Forest) (i : InstanceId) (change : Instance → Instance) :
    (f.modify i change).roots = f.roots := rfl

@[simp] theorem live_modify (f : Forest) (i : InstanceId) (change : Instance → Instance) :
    (f.modify i change).live = f.live := rfl

/-- Whether an entry is in use, and its generation, do not depend on what its instance is. -/
theorem entry_modify (f : Forest) (i : InstanceId) (change : Instance → Instance) (n : Nat) :
    (f.modify i change).entries[n]?.map (fun entry => (entry.generation, entry.content.isSome))
      = f.entries[n]?.map fun entry => (entry.generation, entry.content.isSome) := by
  unfold modify
  rw [Array.getElem?_modify]
  split
  · cases f.entries[n]? with
    | none => rfl
    | some entry =>
      by_cases h : entry.generation = i.generation <;> simp [h]
  · rfl

theorem vacant_modify (f : Forest) (i : InstanceId) (change : Instance → Instance) (n : Nat) :
    (∃ entry, (f.modify i change).entries[n]? = some entry ∧ entry.content = none)
      ↔ ∃ entry, f.entries[n]? = some entry ∧ entry.content = none := by
  have h := entry_modify f i change n
  constructor
  · rintro ⟨entry, he, hc⟩
    rw [he] at h
    obtain ⟨entry', he', h'⟩ := Option.map_eq_some_iff.mp h.symm
    refine ⟨entry', he', ?_⟩
    simpa [hc] using congrArg Prod.snd h'
  · rintro ⟨entry, he, hc⟩
    rw [he] at h
    obtain ⟨entry', he', h'⟩ := Option.map_eq_some_iff.mp h
    refine ⟨entry', he', ?_⟩
    simpa [hc] using congrArg Prod.snd h'

theorem occupied_modify (f : Forest) (i : InstanceId) (change : Instance → Instance) :
    (f.modify i change).occupied = f.occupied := by
  have h : (f.modify i change).entries.toList.map (·.content.isSome)
      = f.entries.toList.map (·.content.isSome) := by
    apply List.ext_getElem?
    intro n
    have he := congrArg (Option.map Prod.snd) (entry_modify f i change n)
    simpa [Option.map_map, Function.comp_def] using he
  have hc (l : List Entry) :
      l.countP (·.content.isSome) = (l.map (·.content.isSome)).countP id := by
    rw [List.countP_map]
    rfl
  unfold occupied
  rw [hc, h, ← hc]

/-! ## 3. An entry filled -/

/-- The vacated entries are known, each once. -/
structure FreeSound (f : Forest) : Prop where
  nodup : f.free.Nodup
  mem_iff : ∀ n, n ∈ f.free ↔ ∃ entry, f.entries[n]? = some entry ∧ entry.content = none

section Place

variable {f : Forest} (hf : f.FreeSound) (s : Instance)
include hf

/-- The handle of a placed instance led nowhere before. -/
theorem get?_place_fresh : f.get? (f.place s).1 = none := by
  unfold place
  split
  · next index free h =>
    obtain ⟨entry, he, hc⟩ := (hf.mem_iff index).mp (by rw [h]; exact List.mem_cons_self)
    exact get?_eq_none_of_content he hc
  · simp [get?]

theorem get?_place (j : InstanceId) :
    (f.place s).2.get? j = if j = (f.place s).1 then some s else f.get? j := by
  unfold place
  split
  · next index free h =>
    obtain ⟨entry, he, hc⟩ := (hf.mem_iff index).mp (by rw [h]; exact List.mem_cons_self)
    obtain ⟨hlt, hget⟩ := Array.getElem?_eq_some_iff.mp he
    obtain ⟨n, g⟩ := j
    by_cases hn : index = n
    · subst hn
      by_cases hg : entry.generation = g
      · simp [get?, hlt, hget, hg]
      · simp [get?, hlt, hget, hg, Ne.symm hg]
    · simp [get?, Array.getElem?_setIfInBounds_ne hn, Ne.symm hn]
  · obtain ⟨n, g⟩ := j
    by_cases hn : n = f.entries.size
    · subst hn
      by_cases hg : g = 0
      · simp [get?, hg]
      · simp [get?, hg, Ne.symm hg]
    · simp [get?, Array.getElem?_push, hn]

theorem occupied_place : (f.place s).2.occupied = f.occupied + 1 := by
  unfold place occupied
  split
  · next index free h =>
    obtain ⟨entry, he, hc⟩ := (hf.mem_iff index).mp (by rw [h]; exact List.mem_cons_self)
    obtain ⟨hlt, hget⟩ := Array.getElem?_eq_some_iff.mp he
    rw [Array.toList_setIfInBounds, List.countP_set (by simpa using hlt)]
    simp [hget, hc]
  · simp

theorem freeSound_place : (f.place s).2.FreeSound := by
  unfold place
  split
  · next index free h =>
    have hnd : (index :: free).Nodup := h ▸ hf.nodup
    obtain ⟨hx, hfree⟩ := List.nodup_cons.mp hnd
    refine ⟨hfree, fun n => ?_⟩
    obtain ⟨entry, he, -⟩ := (hf.mem_iff index).mp (by rw [h]; exact List.mem_cons_self)
    have hlt : index < f.entries.size := (Array.getElem?_eq_some_iff.mp he).1
    have hn := hf.mem_iff n
    rw [h, List.mem_cons] at hn
    by_cases hni : index = n
    · subst hni
      simp [hlt, hx]
    · rw [Array.getElem?_setIfInBounds_ne hni, ← hn]
      simp [Ne.symm hni]
  · next h =>
    refine ⟨by rw [h]; exact List.nodup_nil, fun n => ?_⟩
    have hn := hf.mem_iff n
    simp only [h, List.not_mem_nil, false_iff] at hn ⊢
    rw [Array.getElem?_push]
    split
    · rintro ⟨entry, he, hc⟩
      rw [← Option.some.inj he] at hc
      cases hc
    · exact hn

end Place

@[simp] theorem roots_place (f : Forest) (s : Instance) : (f.place s).2.roots = f.roots := by
  unfold place
  split <;> rfl

@[simp] theorem live_place (f : Forest) (s : Instance) : (f.place s).2.live = f.live + 1 := by
  unfold place
  split <;> rfl

/-! ## 4. An entry emptied -/

section Vacate

variable {f : Forest} {i : InstanceId} {s : Instance} (hi : f.get? i = some s)
include hi

theorem get?_vacate (j : InstanceId) :
    (f.vacate i).get? j = if j = i then none else f.get? j := by
  rw [get?_eq_some_iff] at hi
  obtain ⟨hlt, hget⟩ := Array.getElem?_eq_some_iff.mp hi
  obtain ⟨n, g⟩ := j
  by_cases hn : i.index = n
  · subst hn
    by_cases hg : g = i.generation
    · simp [get?, vacate, hlt, hg]
    · have hne : (⟨i.index, g⟩ : InstanceId) ≠ i := fun h => hg (congrArg (·.generation) h)
      simp [get?, vacate, hlt, hget, hne, Ne.symm hg]
  · have hne : (⟨n, g⟩ : InstanceId) ≠ i := fun h => hn (congrArg (·.index) h).symm
    simp [get?, vacate, Array.getElem?_setIfInBounds_ne hn, hne]

theorem occupied_vacate : (f.vacate i).occupied + 1 = f.occupied := by
  rw [get?_eq_some_iff] at hi
  obtain ⟨hlt, hget⟩ := Array.getElem?_eq_some_iff.mp hi
  have hpos : 0 < f.entries.toList.countP (·.content.isSome) := by
    refine List.countP_pos_iff.mpr ⟨f.entries[i.index], ?_, ?_⟩
    · simp
    · rw [hget]
      rfl
  unfold occupied vacate
  rw [Array.toList_setIfInBounds, List.countP_set (by simpa using hlt)]
  simp only [Array.getElem_toList, hget, Option.isSome_some, Option.isSome_none, if_true]
  rw [if_neg Bool.false_ne_true]
  omega

theorem freeSound_vacate (hf : f.FreeSound) : (f.vacate i).FreeSound := by
  have hlt := index_lt_of_get? hi
  rw [get?_eq_some_iff] at hi
  have hout : i.index ∉ f.free := by
    intro h
    obtain ⟨entry, he, hc⟩ := (hf.mem_iff _).mp h
    rw [hi] at he
    rw [← Option.some.inj he] at hc
    cases hc
  refine ⟨List.nodup_cons.mpr ⟨hout, hf.nodup⟩, fun n => ?_⟩
  unfold vacate
  rw [List.mem_cons]
  by_cases hn : i.index = n
  · subst hn
    simp [hlt]
  · rw [Array.getElem?_setIfInBounds_ne hn, ← hf.mem_iff n]
    simp [Ne.symm hn]

end Vacate

end Forest

end InstrumentFlow
