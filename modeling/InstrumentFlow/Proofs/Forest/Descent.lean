import InstrumentFlow.Proofs.Forest.Sound
import Mathlib.Data.Finset.Card

/-!
# Descent

How deep calls are nested below an instance.

* `Forest.ids` -- the live handles, as many as entries are in use;
* `Forest.rank` -- how many instances were called from below an instance;
* `Forest.Sound.rank_lt_of_isCaller`, `rank_lt_live`, `rank_mono` -- it falls from a caller to what
  it called, stays below the count of live instances, and does not rise while a forest loses
  instances.
-/

namespace InstrumentFlow.Forest

open Relation (TransGen)

/-! ## 1. The live handles -/

/-- The live handles in the order of their entries. -/
def ids (f : Forest) : List InstanceId :=
  f.entries.toList.zipIdx.filterMap fun (entry, n) =>
    entry.content.map fun _ => ⟨n, entry.generation⟩

theorem mem_ids {f : Forest} {i : InstanceId} : i ∈ f.ids ↔ ∃ s, f.get? i = some s := by
  unfold ids
  rw [List.mem_filterMap]
  simp only [get?_eq_some_iff]
  constructor
  · rintro ⟨⟨⟨g, content⟩, n⟩, hmem, hi⟩
    obtain ⟨s, hs, rfl⟩ := Option.map_eq_some_iff.mp hi
    have hget := List.mem_zipIdx_iff_getElem?.mp hmem
    rw [Array.getElem?_toList] at hget
    cases hs
    exact ⟨s, hget⟩
  · rintro ⟨s, hs⟩
    refine ⟨(⟨i.generation, some s⟩, i.index), ?_, rfl⟩
    rw [List.mem_zipIdx_iff_getElem?, Array.getElem?_toList]
    exact hs

theorem length_ids (f : Forest) : f.ids.length = f.occupied := by
  have hsome (p : Entry × Nat) : (p.1.content.map fun _ =>
      (⟨p.2, p.1.generation⟩ : InstanceId)).isSome = p.1.content.isSome := Option.isSome_map
  unfold ids occupied
  rw [List.length_filterMap_eq_countP]
  simp only [hsome]
  have hmap := List.countP_map (p := fun entry : Entry => entry.content.isSome) (f := Prod.fst)
    (l := f.entries.toList.zipIdx)
  rw [List.zipIdx_map_fst] at hmap
  exact hmap.symm

/-! ## 2. Descendants and their number -/

/-- The live instances that were called from below an instance. -/
noncomputable def descendants (f : Forest) (i : InstanceId) : Finset InstanceId :=
  letI : DecidablePred (TransGen f.IsCaller i) := fun _ => Classical.propDecidable _
  f.ids.toFinset.filter (TransGen f.IsCaller i)

/-- How many instances were called from below an instance. -/
noncomputable def rank (f : Forest) (i : InstanceId) : Nat := (f.descendants i).card

theorem mem_descendants {f : Forest} {i k : InstanceId} :
    k ∈ f.descendants i ↔ TransGen f.IsCaller i k := by
  unfold descendants
  simp only [Finset.mem_filter, List.mem_toFinset, mem_ids]
  refine ⟨And.right, fun h => ⟨?_, h⟩⟩
  obtain ⟨_, _, s, hs, _⟩ := TransGen.tail'_iff.mp h
  exact ⟨s, hs⟩

/-- A forest that lost instances has fewer descendants. -/
theorem rank_mono {f f' : Forest} (h : ∀ p k, f'.IsCaller p k → f.IsCaller p k) (i : InstanceId) :
    f'.rank i ≤ f.rank i := by
  refine Finset.card_le_card fun k hk => ?_
  rw [mem_descendants] at hk ⊢
  exact TransGen.mono (fun p k => h p k) i k hk

namespace Sound

variable {f : Forest} (hf : f.Sound)
include hf

theorem rank_lt_of_isCaller {p k : InstanceId} (h : f.IsCaller p k) : f.rank k < f.rank p := by
  refine Finset.card_lt_card (Finset.ssubset_iff_subset_ne.mpr ⟨fun j hj => ?_, fun he => ?_⟩)
  · rw [mem_descendants] at hj ⊢
    exact TransGen.head h hj
  · have hk : k ∈ f.descendants p := mem_descendants.mpr (TransGen.single h)
    rw [← he, mem_descendants] at hk
    exact hf.acyclic k hk

theorem rank_lt_live {i : InstanceId} {s : Instance} (h : f.get? i = some s) :
    f.rank i < f.live := by
  have hmem : i ∈ f.ids.toFinset := List.mem_toFinset.mpr (mem_ids.mpr ⟨s, h⟩)
  have hsub : f.descendants i ⊂ f.ids.toFinset := by
    refine Finset.ssubset_iff_subset_ne.mpr ⟨fun k hk => ?_, fun he => ?_⟩
    · obtain ⟨_, _, t, ht, _⟩ := TransGen.tail'_iff.mp (mem_descendants.mp hk)
      exact List.mem_toFinset.mpr (mem_ids.mpr ⟨t, ht⟩)
    · rw [← he, mem_descendants] at hmem
      exact hf.acyclic i hmem
  calc f.rank i < f.ids.toFinset.card := Finset.card_lt_card hsub
    _ ≤ f.ids.length := List.toFinset_card_le _
    _ = f.live := by rw [length_ids, hf.live_eq]

/-- Where there are live instances, one of them was called by nobody. -/
theorem exists_root {i : InstanceId} {s : Instance} (h : f.get? i = some s) : ∃ r, r ∈ f.roots := by
  -- the induction goes up the callers: an instance has fewer descendants than its caller
  induction hn : f.live - f.rank i using Nat.strongRecOn generalizing i s with
  | ind n ih =>
    cases hp : s.parent with
    | none => exact ⟨i, (hf.mem_roots i).mpr ⟨s, h, hp⟩⟩
    | some q =>
      have hcall : f.IsCaller q.1 i := ⟨s, h, Instance.caller?_eq_some_iff.mpr ⟨q.2, hp⟩⟩
      obtain ⟨t, ht⟩ := hf.caller_live q.1 i hcall
      have hrank := hf.rank_lt_of_isCaller hcall
      have hlive := hf.rank_lt_live ht
      exact ih (f.live - f.rank q.1) (by omega) ht rfl

end Sound

end InstrumentFlow.Forest
